/-
  Courier/Proofs/Store/Choice.lean
  ================================
  **Which queue a poll chooses.**

  A poll goes through the rows of its lane, while whoever looks at a queue is shown
  its state, put together from the row and the blocks.  The two agree: a row is
  claimable exactly if the state that is shown for it is (`Lane.claimable_iff`), so
  a poll hands out an item exactly if some queue is shown to be claimable, and it is
  the head of the foremost of them (`Store.next_takes_foremost`).

  Rows are kept by name, in no order of their own.  No two of them share a head, so
  that one claimable row comes before all others, and it is found in whatever order
  they are gone through (`Row.first?_perm`).  Two stores that differ by the order of
  their rows go on alike (`Store.next_reorders`).
-/
import Courier.Proofs.Store.Rows
import Courier.Proofs.Store.Waiting

namespace Courier

open Courier.Time

/-! ### Rows in another order -/

/-- The row that has waited longest is the same in every order of the rows. -/
theorem Row.first?_perm {rows rows' : List Row} (h : rows'.Perm rows)
    (hheads : (rows.map (·.head)).Nodup) : first? rows' = first? rows := by
  cases hfirst : first? rows with
  | none =>
    have hnone : ∀ row, row ∉ rows := fun row hr => first?_ne_none hr hfirst
    rw [List.eq_nil_iff_forall_not_mem.2 fun row hr => hnone row (h.mem_iff.1 hr)]
    rfl
  | some row =>
    have hmem := mem_of_first? hfirst
    cases hother : first? rows' with
    | none => exact absurd hother (first?_ne_none (h.mem_iff.2 hmem))
    | some row' =>
      have hmem' : row' ∈ rows := h.mem_iff.1 (mem_of_first? hother)
      -- neither comes before the other one, so they have the same key
      have hle := not_before_iff.1 (first?_least hfirst row' hmem')
      have hge := not_before_iff.1 (first?_least hother row (h.mem_iff.2 hmem))
      have hkey : row'.key = row.key := le_antisymm hge hle
      have hhead : row'.head = row.head := congrArg (fun key => (ofLex key).2) hkey
      rw [Keyed.eq_of_mem hheads hmem' hmem hhead]

namespace Lane

/-- Whether a lane is another one with its rows in some order. -/
def Reorders (l' l : Lane) : Prop := ∃ rows, rows.Perm l.rows ∧ l' = { l with rows }

variable {sharding : Sharding} {bound : WorkItemId} {l l' : Lane} {now : Instant}

theorem linkRow_perm {rows rows' : List Row} (h : rows'.Perm rows) (item : WorkItem) :
    (linkRow rows' item).Perm (linkRow rows item) := by
  unfold linkRow
  rw [h.any_eq]
  split
  · exact h
  · exact h.append_right _

theorem foldl_linkRow_perm (items : List WorkItem) {rows rows' : List Row}
    (h : rows'.Perm rows) : (items.foldl linkRow rows').Perm (items.foldl linkRow rows) := by
  induction items generalizing rows rows' with
  | nil => exact h
  | cons item rest ih => exact ih (linkRow_perm h item)

/-- What messages leave of the blocks depends on nothing but the blocks. -/
theorem blocks_foldl_applyMessage (messages : List BlockingMessage) {a b : Lane}
    (h : a.blocks = b.blocks) :
    (messages.foldl applyMessage a).blocks = (messages.foldl applyMessage b).blocks := by
  induction messages generalizing a b with
  | nil => exact h
  | cons m rest ih =>
    refine ih ?_
    unfold applyMessage setBlockedBy blockedBy
    rw [h]

theorem Reorders.shard (h : l'.Reorders l) : l'.shard = l.shard := by
  obtain ⟨rows, -, rfl⟩ := h
  rfl

theorem Reorders.poll (h : l'.Reorders l) : l'.poll.Reorders l.poll := by
  obtain ⟨rows, hperm, rfl⟩ := h
  refine ⟨({ l with rows } : Lane).poll.rows, ?_, ?_⟩
  · rw [rows_poll, rows_poll]
    exact foldl_linkRow_perm _ hperm
  · have hblocks : ({ l with rows } : Lane).poll.blocks = l.poll.blocks :=
      blocks_foldl_applyMessage l.mailbox rfl
    rw [poll_eq { l with rows }, poll_eq l, hblocks]
    rfl

theorem Reorders.candidate? (h : l'.Reorders l) (hs : l.Sound sharding bound) :
    l'.candidate? now = l.candidate? now := by
  obtain ⟨rows, hperm, rfl⟩ := h
  have hheads : ((l.rows.filter fun row => l.Claimable now row).map (·.head)).Nodup :=
    hs.heads_nodup.sublist (List.filter_sublist.map _)
  exact Row.first?_perm (hperm.filter _) hheads

theorem Reorders.lease (h : l'.Reorders l) (row : Row) (item : WorkItem) :
    (l'.lease now row item).Reorders (l.lease now row item) := by
  obtain ⟨rows, hperm, rfl⟩ := h
  exact ⟨_, hperm.map _, rfl⟩

/-! ### What is shown of a row -/

/-- What is shown of the queue of a row. -/
def stateOf (l : Lane) (row : Row) : QueueState :=
  { shard := l.shard
    name := row.name
    head := row.head
    errorCount := row.errorCount
    lockedUntil := row.lockedUntil
    isPaused := row.isPaused
    externalLock := row.lock
    blockedBy := l.blockedBy row.name }

theorem queueState?_eq_some_iff (hs : l.Sound sharding bound) {name : String} {q : QueueState} :
    l.queueState? name = some q ↔ ∃ row ∈ l.rows, row.name = name ∧ l.stateOf row = q := by
  constructor
  · intro h
    obtain ⟨row, hrow, rfl⟩ := Option.map_eq_some_iff.1 h
    obtain ⟨hmem, rfl⟩ := mem_of_row? hrow
    exact ⟨row, hmem, rfl, rfl⟩
  · rintro ⟨row, hr, rfl, rfl⟩
    unfold queueState?
    rw [hs.row?_of_mem hr]
    rfl

/-- A row is claimable exactly if what is shown of it is. -/
theorem claimable_iff {row : Row} : l.Claimable now row ↔ (l.stateOf row).IsClaimable now := by
  simp only [Claimable, QueueState.IsClaimable, stateOf, Int.ofNat_lt]

/-- A lane after a row was leased, field by field. -/
theorem Sound.lease_eq (hs : l.Sound sharding bound) {row : Row} {item : WorkItem}
    (hitem : l.item? row.head = some item) :
    l.lease now row item =
      { l with
        rows := l.rows.map fun r =>
          if r.name = row.name then { r with lockedUntil := now + leaseDuration } else r
        items := l.items.map fun other =>
          if other.id = row.head then { other with lastAttemptedAt := some now } else other } := by
  obtain ⟨hmem, hid⟩ := mem_of_item? hitem
  have hitems : (l.items.map fun other => if other.id = item.id then item.attempted now else other) =
      l.items.map fun other => if other.id = row.head then other.attempted now else other := by
    refine List.map_congr_left fun other ho => ?_
    by_cases hsame : other.id = row.head
    · rw [if_pos hsame, if_pos (hsame.trans hid.symm), hs.item_eq ho hmem (hsame.trans hid.symm)]
    · rw [if_neg hsame, if_neg fun h => hsame (h.trans hid)]
  unfold lease Lane.setItem
  exact congrArg (fun items => { l.updateRow row.name fun r =>
    { r with lockedUntil := now + leaseDuration } with items }) hitems

end Lane

/-- Whether a queue goes before another one: its lease ended earlier, or at the same instant and it
    has the lesser head. -/
def QueueState.Precedes (q other : QueueState) : Prop :=
  q.lockedUntil < other.lockedUntil ∨ (q.lockedUntil = other.lockedUntil ∧ q.head < other.head)

theorem QueueState.Precedes.asymm {q other : QueueState} (h : q.Precedes other) :
    ¬ other.Precedes q := by
  intro h'
  rcases h with hlt | ⟨hsame, hlt⟩
  · rcases h' with hgt | ⟨hsame, -⟩
    · exact Int.lt_asymm hlt hgt
    · rw [hsame] at hlt
      exact Int.lt_irrefl _ hlt
  · rcases h' with hgt | ⟨-, hgt⟩
    · rw [hsame] at hgt
      exact Int.lt_irrefl _ hgt
    · exact Int.lt_asymm hlt hgt

namespace Store

variable {s s' : Store} {now : Instant} {shard : Shard} {lane : Lane} {sharding : Sharding}
variable {bound : WorkItemId}

/-! ### Stores with the rows in another order -/

/-- Whether a store is another one with the rows of each lane in some order. -/
structure Reorders (s' s : Store) : Prop where
  sharding : s'.sharding = s.sharding
  jobs : s'.jobs = s.jobs
  nextId : s'.nextId = s.nextId
  lanes : List.Forall₂ Lane.Reorders s'.lanes s.lanes

theorem Reorders.lane? (h : s'.Reorders s) (shard : Shard) :
    Option.Rel Lane.Reorders (s'.lane? shard) (s.lane? shard) := by
  obtain ⟨-, -, -, hlanes⟩ := h
  unfold Store.lane?
  generalize s'.lanes = lanes', s.lanes = lanes at hlanes ⊢
  induction hlanes with
  | nil => exact .none
  | @cons l' l _ _ hlane _ ih =>
    rw [List.find?_cons, List.find?_cons, hlane.shard]
    split
    · exact .some hlane
    · exact ih

theorem Reorders.setLane (h : s'.Reorders s) {lane' : Lane} (hlane : lane'.Reorders lane) :
    (s'.setLane lane').Reorders (s.setLane lane) where
  sharding := h.sharding
  jobs := h.jobs
  nextId := h.nextId
  lanes := by
    unfold Store.setLane
    rw [List.forall₂_map_left_iff, List.forall₂_map_right_iff]
    refine h.lanes.imp fun a b hab => ?_
    rw [hab.shard, hlane.shard]
    split
    · exact hlane
    · exact hab

/-- A poll gives the same answer whatever the order of the rows, and nothing but their order differs
    afterwards. -/
theorem next_reorders (hs : s.Sound) (h : s'.Reorders s) (now : Instant) (shard : Shard) :
    (s'.next now shard).1 = (s.next now shard).1 ∧
      (s'.next now shard).2.Reorders (s.next now shard).2 := by
  have hlane := h.lane? shard
  cases hl : s.lane? shard with
  | none =>
    rw [hl] at hlane
    cases hl' : s'.lane? shard with
    | some lane' =>
      rw [hl'] at hlane
      cases hlane
    | none =>
      unfold next withLane
      rw [hl, hl']
      exact ⟨rfl, h⟩
  | some lane =>
    rw [hl] at hlane
    cases hl' : s'.lane? shard with
    | none =>
      rw [hl'] at hlane
      cases hlane
    | some lane' =>
      rw [hl'] at hlane
      cases hlane with
      | some hre =>
        have hpoll := hre.poll
        have hcandidate : lane'.poll.candidate? now = lane.poll.candidate? now :=
          hpoll.candidate? (hs.lane hl).poll
        rcases next_cases hs hl now with ⟨hnone, hrun⟩ | ⟨row, item, hclaims, hrun⟩
        · rw [hrun, next_of_nothing hl' (hcandidate.trans hnone)]
          exact ⟨rfl, h.setLane hpoll⟩
        · have hitem : lane'.poll.item? row.head = some item := by
            obtain ⟨rows, -, heq⟩ := hpoll
            rw [heq]
            exact hclaims.head
          have hclaims' : s'.Claims now shard lane' row item :=
            ⟨hl', hcandidate.trans hclaims.first, hitem⟩
          rw [hrun, hclaims'.next]
          exact ⟨rfl, h.setLane (hpoll.lease row item)⟩

/-! ### The foremost queue -/

/-- Whether a queue of a shard shows that it may hand out its head. -/
structure Offers (s : Store) (now : Instant) (shard : Shard) (q : QueueState) : Prop where
  shown : s.queueState ⟨q.name, shard⟩ = .ok (some q)
  claimable : q.IsClaimable now

/-- Whether moreover it goes before all others that do. -/
structure IsForemost (s : Store) (now : Instant) (shard : Shard) (q : QueueState) : Prop extends
    s.Offers now shard q where
  least : ∀ other, s.Offers now shard other → other ≠ q → q.Precedes other

/-- A store after a queue was leased and an item handed out; all else is the same. -/
def handOut (s : Store) (now : Instant) (shard : Shard) (name : String) (id : WorkItemId) : Store :=
  s.updateLane shard fun lane =>
    { lane with
      rows := lane.rows.map fun row =>
        if row.name = name then { row with lockedUntil := now + leaseDuration } else row
      items := lane.items.map fun item =>
        if item.id = id then { item with lastAttemptedAt := some now } else item }

/-- Only one queue goes before all others. -/
theorem IsForemost.unique {q other : QueueState} (h : s.IsForemost now shard q)
    (h' : s.IsForemost now shard other) : other = q := by
  by_contra hne
  have hbefore : q.Precedes other := h.least other h'.toOffers hne
  have hafter : other.Precedes q := h'.least q h.toOffers fun heq => hne heq.symm
  exact hbefore.asymm hafter

theorem offers_iff (hs : lane.Sound sharding bound) (hl : s.lane? shard = some lane)
    {q : QueueState} :
    s.Offers now shard q ↔ ∃ row ∈ lane.rows, lane.Claimable now row ∧ lane.stateOf row = q := by
  have hshown : s.queueState ⟨q.name, shard⟩ = .ok (some q) ↔
      ∃ row ∈ lane.rows, row.name = q.name ∧ lane.stateOf row = q := by
    rw [← Lane.queueState?_eq_some_iff hs]
    unfold queueState readLane
    rw [hl]
    exact iff_of_eq (Except.ok.injEq _ _)
  constructor
  · rintro ⟨hq, hclaim⟩
    obtain ⟨row, hr, -, rfl⟩ := hshown.1 hq
    exact ⟨row, hr, Lane.claimable_iff.2 hclaim, rfl⟩
  · rintro ⟨row, hr, hclaim, rfl⟩
    exact ⟨hshown.2 ⟨row, hr, rfl, rfl⟩, Lane.claimable_iff.1 hclaim⟩

/-- The candidate of a poll is shown as the foremost queue. -/
theorem isForemost_of_candidate? (hs : lane.Sound sharding bound)
    (hl : s.lane? shard = some lane) {row : Row} (hfirst : lane.candidate? now = some row) :
    s.IsForemost now shard (lane.stateOf row) where
  toOffers := (offers_iff hs hl).2 ⟨row, (Lane.mem_of_candidate? hfirst).1,
    (Lane.mem_of_candidate? hfirst).2, rfl⟩
  least := by
    intro other ho hne
    obtain ⟨ours, hours, hclaim, rfl⟩ := (offers_iff hs hl).1 ho
    have hle : row.key ≤ ours.key :=
      Row.not_before_iff.1 (Lane.candidate?_least hfirst hours hclaim)
    have hkey : row.key ≠ ours.key := by
      intro hkey
      have hhead : row.head = ours.head := congrArg (fun key => (ofLex key).2) hkey
      exact hne (by rw [hs.head_inj (Lane.mem_of_candidate? hfirst).1 hours hhead])
    exact Row.before_iff.2 (lt_of_le_of_ne hle hkey)

/-- Once a poll has linked the new items and read the mailbox, it hands out an item exactly if some
    queue of the shard shows that it is claimable.  The item is the head of the one such queue that
    goes before all others; that queue is leased, the item is attempted, and nothing else changes.
    If there is none, nothing changes.  The order of the rows plays no part. -/
theorem next_takes_foremost (calls : List (Call sharding)) (now : Instant) {shard : Shard}
    (hknown : shard ∈ sharding.shards) :
    let s := reached calls
    let polled := s.updateLane shard Lane.poll
    ((∃ item, (s.next now shard).1 = .ok (some item)) ↔ ∃ q, polled.Offers now shard q) ∧
    (∀ q, polled.Offers now shard q → ∃ first item, polled.IsForemost now shard first ∧
      (∀ other, polled.IsForemost now shard other → other = first) ∧
      polled.readLane shard (·.item? first.head) = .ok (some item) ∧
      s.next now shard = (.ok (some { item with lastAttemptedAt := some now }),
        polled.handOut now shard first.name first.head)) ∧
    ((¬ ∃ q, polled.Offers now shard q) → s.next now shard = (.ok none, polled)) ∧
    ∀ s' : Store, s'.Reorders s → (s'.next now shard).1 = (s.next now shard).1 ∧
      (s'.next now shard).2.Reorders (s.next now shard).2 := by
  obtain ⟨hs, hsharding⟩ := reached_sound calls
  obtain ⟨lane, hl⟩ := hs.exists_lane (hsharding.symm ▸ hknown)
  generalize reached calls = s at hs hl ⊢
  intro s polled
  obtain ⟨hmem, rfl⟩ := mem_of_lane? hl
  have hpolled : polled = s.setLane lane.poll :=
    hs.updateLane_eq hmem lane.shard_poll
  have hsound : lane.poll.Sound s.sharding s.nextId := (hs.lane hl).poll
  have hthere : polled.lane? lane.shard = some lane.poll :=
    hpolled ▸ lane?_setLane_self hl lane.shard_poll
  rcases next_cases hs hl now with ⟨hnone, hrun⟩ | ⟨row, item, hclaims, hrun⟩
  · have hno : ¬ ∃ q, polled.Offers now lane.shard q := by
      rintro ⟨q, hq⟩
      obtain ⟨row, hr, hclaim, -⟩ := (offers_iff hsound hthere).1 hq
      exact Lane.candidate?_ne_none hr hclaim hnone
    refine ⟨⟨?_, fun h => absurd h hno⟩, fun q hq => absurd ⟨q, hq⟩ hno, fun _ => ?_,
      fun s' h => next_reorders hs h now lane.shard⟩
    · rintro ⟨item, hitem⟩
      rw [hrun] at hitem
      cases hitem
    · rw [hrun, hpolled]
  · have hforemost : polled.IsForemost now lane.shard (lane.poll.stateOf row) :=
      isForemost_of_candidate? hsound hthere hclaims.first
    have hoffered : ∃ q, polled.Offers now lane.shard q := ⟨_, hforemost.toOffers⟩
    refine ⟨⟨fun _ => hoffered, fun _ => ⟨_, congrArg Prod.fst hrun⟩⟩, fun _ _ => ?_,
      fun hno => absurd hoffered hno, fun s' h => next_reorders hs h now lane.shard⟩
    refine ⟨_, item, hforemost, fun other => hforemost.unique, ?_, ?_⟩
    · unfold readLane
      rw [hthere]
      exact congrArg Except.ok hclaims.head
    · have hhanded : polled.handOut now lane.shard row.name row.head =
          s.setLane (lane.poll.lease now row item) := by
        rw [hsound.lease_eq hclaims.head, hpolled, ← lane.shard_poll]
        exact updateLane_setLane s lane.poll rfl
      rw [hrun, ← hhanded]
      rfl

/-- Two queues that were filed at one instant, the one with the greater name first. -/
def filedAtOnce : List (Call .single) :=
  [⟨{ origin := ⟨10⟩ }, .operate (.enqueue "" { url := "http://a/1", queue := some "b" })⟩,
   ⟨{ origin := ⟨10⟩ }, .operate (.enqueue "" { url := "http://a/2", queue := some "a" })⟩,
   ⟨{ origin := ⟨10⟩ }, .operate (.next ⟨0, 1⟩)⟩]

/-- Their rows the other way round. -/
def filedAtOnceTurned : Store :=
  { reached filedAtOnce with
    lanes := (reached filedAtOnce).lanes.map fun lane => { lane with rows := lane.rows.reverse } }

/-- Either way the lesser head is handed out. -/
theorem lesser_head_in_either_order :
    (⟨0, 1⟩ : Shard) ∈ Sharding.single.shards ∧
      filedAtOnceTurned.lanes ≠ (reached filedAtOnce).lanes ∧
      (∃ item, ((reached filedAtOnce).next ⟨11⟩ ⟨0, 1⟩).1 = .ok (some item) ∧ item.id = 1) ∧
      (filedAtOnceTurned.next ⟨11⟩ ⟨0, 1⟩).1 = ((reached filedAtOnce).next ⟨11⟩ ⟨0, 1⟩).1 := by
  have hknown : (⟨0, 1⟩ : Shard) ∈ Sharding.single.shards := by decide
  have hturned : filedAtOnceTurned.Reorders (reached filedAtOnce) := by
    refine ⟨rfl, rfl, rfl, ?_⟩
    unfold filedAtOnceTurned
    rw [List.forall₂_map_left_iff, List.forall₂_same]
    intro lane _
    exact ⟨lane.rows.reverse, lane.rows.reverse_perm, rfl⟩
  obtain ⟨-, -, -, hsame⟩ := next_takes_foremost filedAtOnce ⟨11⟩ hknown
  exact ⟨hknown, by decide +kernel, ⟨_, rfl, rfl⟩, (hsame _ hturned).1⟩

end Store

end Courier
