/-
  Courier/Proofs/Store/Recovery.lean
  ==================================
  **No item is ever stranded.**

  An operator gets a queue going by resuming it, releasing the lock it holds and
  resetting it (`Store.remedies`).  In whatever state a store is, a queue with a
  pending item that nothing blocks then waits for nothing but the end of its lease
  (`Lane.Ready`): a queue without a row gets one from the next poll.  Each poll that
  hands out an item of another queue leases that queue until later than ours, so at
  most one poll for each other row goes by (`Store.nothing_stranded`).

  The lease of a queue that gets its row from a poll ends when its oldest item was
  filed.  If the clock was set back since, that instant may lie ahead, and the queue
  waits until the clock has passed it (`Store.waits_for_its_filing`).
-/
import Courier.Proofs.Store.Blocking
import Courier.Proofs.Store.Locks
import Courier.Proofs.Store.Waiting

namespace Courier

open Courier.Time

/-! ### Queues that wait for the end of their lease -/

namespace Lane

variable {sharding : Sharding} {now : Instant} {bound : WorkItemId} {l : Lane} {item : WorkItem}
variable {row ours : Row}

/-- Whether nothing but its lease keeps the head of a row from being handed out. -/
structure Ready (l : Lane) (row : Row) : Prop where
  mem : row ∈ l.rows
  sane : row.errorCount < greatestErrorCount
  running : row.isPaused = false
  unlocked : row.lock = none
  free : l.blockedBy row.name = []

theorem Ready.claimable (h : l.Ready ours) (hlate : ours.lockedUntil < now) :
    l.Claimable now ours :=
  ⟨hlate, h.sane, h.running, h.unlocked, h.free⟩

/-- A row stays ready while another one is leased. -/
theorem Ready.lease (h : l.Ready ours) (hne : row.name ≠ ours.name) :
    (l.lease now row item).Ready ours :=
  { h with mem := List.mem_map.2 ⟨ours, h.mem, if_neg hne.symm⟩ }

/-- A poll that hands out an item of a polled lane leaves nothing for the next poll to link or to
    apply. -/
theorem poll_lease (l : Lane) (now : Instant) (row : Row) (hi : item ∈ l.poll.items) :
    (l.poll.lease now row item).poll = l.poll.lease now row item := by
  refine poll_of_linked (fun other ho => ?_) (mailbox_poll l)
  obtain ⟨a, ha, rfl⟩ := List.mem_map.1 ho
  split
  · exact linked_poll l item hi
  · exact linked_poll l a ha

theorem updateRow_updateRow (l : Lane) (name : String) {f g : Row → Row}
    (hf : ∀ row, (f row).name = row.name) :
    (l.updateRow name f).updateRow name g = l.updateRow name fun row => g (f row) := by
  have hrows : (l.rows.map fun row => if row.name = name then f row else row).map
        (fun row => if row.name = name then g row else row) =
      l.rows.map fun row => if row.name = name then g (f row) else row := by
    rw [List.map_map]
    refine List.map_congr_left fun row _ => ?_
    by_cases hname : row.name = name
    · simp only [Function.comp_apply, if_pos hname, (hf row).trans hname, if_true]
    · simp only [Function.comp_apply, if_neg hname]
  unfold updateRow
  rw [hrows]

/-- A poll gives a queue without a row one from its oldest item, leased until that was filed. -/
theorem Sound.row?_poll (h : l.Sound sharding bound) {name : String} {first : WorkItem}
    {rest : List WorkItem} (hpending : l.pending name = first :: rest) :
    l.poll.row? name =
      (l.row? name).or (some (.start name first.id first.createdAt)) := by
  rw [Lane.row?_poll]
  cases hrow : l.row? name with
  | some row => rfl
  | none =>
    -- no item of the queue is linked, so the new items of the queue are all of its items
    have hnew : ∀ item ∈ l.items, item.queueName = name → item.isIngested = false :=
      fun item hi hname => h.unlinked_of_row? hrow hi hname
    have hfirst : (l.items.filter fun item => !item.isIngested).find? (·.queueName = name) =
        some first := by
      rw [← List.head?_filter, List.filter_filter]
      have hsame : l.items.filter (fun item => decide (item.queueName = name) && !item.isIngested) =
          l.pending name := by
        refine List.filter_congr fun item hi => ?_
        by_cases hname : item.queueName = name
        · rw [hnew item hi hname, decide_eq_true hname]
          rfl
        · rw [decide_eq_false hname]
          rfl
      rw [hsame, hpending]
      rfl
    have hname : first.queueName = name := by
      have hmem : first ∈ l.pending name := hpending ▸ List.mem_cons_self
      exact of_decide_eq_true (List.mem_filter.1 hmem).2
    rw [hfirst, Option.none_or, Option.none_or, Option.map_some, hname]

end Lane

namespace Store

variable {sharding : Sharding} {s : Store} {lane : Lane} {ours : Row} {shard : Shard}

/-! ### Polls -/

/-- A poll of a shard. -/
def Call.poll (shard : Shard) (clock : Clock) : Call sharding := ⟨clock, .operate (.next shard)⟩

/-- Of polls that find a queue ready whose lease has ended, one hands out an item of the queue,
    after at most one poll for each queue ahead of it. -/
theorem exists_claimed_of_ready {polls : List Clock} (hs : s.Sound) (hl : s.lane? shard = some lane)
    (hready : lane.poll.Ready ours) (hlate : ∀ clock ∈ polls, ours.lockedUntil < clock.storeNow)
    (hmany : (lane.poll.ahead ours).length < polls.length) :
    ∃ item, item ∈ told (Call.claimed ⟨ours.name, shard⟩) s
      (polls.map (Call.poll shard) : List (Call sharding)) := by
  induction polls generalizing s lane with
  | nil => exact absurd hmany (Nat.not_lt_zero _)
  | cons clock rest ih =>
    have hlt : ours.lockedUntil < clock.storeNow := hlate clock List.mem_cons_self
    rcases next_cases hs hl clock.storeNow with ⟨hnothing, -⟩ | ⟨row, item, hclaims, hrun⟩
    · exact absurd hnothing (Lane.candidate?_ne_none hready.mem (hready.claimable hlt))
    have hcand := hclaims.isCandidate hs
    have hcall : (Call.poll shard clock : Call sharding).run s =
        (.ok (.claimed (some (item.attempted clock.storeNow))),
          s.setLane (lane.poll.lease clock.storeNow row item)) :=
      congrArg (Answer.map Operation.Value.claimed) hrun
    by_cases hname : row.name = ours.name
    · -- our queue has its turn
      have hqueue : (item.attempted clock.storeNow).queueRef = ⟨ours.name, shard⟩ := by
        show (⟨item.queueName, item.shard⟩ : QueueRef) = _
        rw [hcand.name, hname, hcand.shard, Lane.shard_poll, (mem_of_lane? hl).2]
      refine ⟨item.attempted clock.storeNow, List.mem_append_left _ ?_⟩
      unfold Call.claimed
      dsimp only [Call.poll] at hcall ⊢
      rw [hcall]
      dsimp only
      rw [if_pos hqueue]
      exact List.mem_singleton_self _
    · -- another queue goes first, and is ahead no more
      have hahead : row ∈ lane.poll.ahead ours := by
        have hleast := Lane.candidate?_least hclaims.first hready.mem (hready.claimable hlt)
        refine List.mem_filter.2 ⟨hcand.mem, decide_eq_true ⟨hname, ?_⟩⟩
        exact Row.lockedUntil_le_of_not_before hleast
      have hpolled := Lane.poll_lease lane clock.storeNow row hcand.item
      obtain ⟨events, hmoves, -⟩ := hclaims.idles
      have hfewer : ((lane.poll.lease clock.storeNow row item).poll.ahead ours).length
          < rest.length := by
        rw [hpolled]
        exact Nat.lt_of_lt_of_le (Lane.length_ahead_lease_lt hahead hlt) (Nat.le_of_lt_succ hmany)
      obtain ⟨claimed, hc⟩ := ih (hmoves.sound hs) (lane?_setLane_self hl (Lane.shard_poll lane))
        (hpolled.symm ▸ hready.lease hname)
        (fun other ho => hlate other (List.mem_cons_of_mem _ ho)) hfewer
      refine ⟨claimed, List.mem_append_right _ ?_⟩
      rw [hcall]
      exact hc

/-! ### What an operator does -/

/-- Resumes a queue, releases the lock it holds and resets it. -/
def remedies (clock : Clock) (queue : QueueRef) (s : Store) : List (Call sharding) :=
  ⟨clock, .operate (.resume queue)⟩
    :: ((s.lockOf queue).toList.map fun lock => ⟨clock, .operate (.unlock queue lock)⟩)
    ++ [⟨clock, .operate (.reset queue)⟩]

/-- A history after which a queue is resumed, unlocked and reset. -/
def remedied (clock : Clock) (queue : QueueRef) (calls : List (Call sharding)) :
    List (Call sharding) :=
  calls ++ remedies clock queue (reached calls)

section Remedies

variable (sharding) {queue : QueueRef} (hl : s.lane? queue.shard = some lane) (clock : Clock)

include hl

theorem lane?_resume :
    ((⟨clock, .operate (.resume queue)⟩ : Call sharding).run s).2.lane? queue.shard =
      some (lane.updateRow queue.name (RowChange.resume.apply clock.storeNow)) := by
  show ((s.resume queue).map _).2.lane? _ = _
  unfold resume withLane
  rw [Answer.map_snd, hl]
  exact lane?_setLane_self hl rfl

theorem lane?_reset :
    ((⟨clock, .operate (.reset queue)⟩ : Call sharding).run s).2.lane? queue.shard =
      some (lane.updateRow queue.name (RowChange.reset.apply clock.storeNow)) := by
  show ((s.reset clock.storeNow queue).map _).2.lane? _ = _
  unfold reset withLane
  rw [Answer.map_snd, hl]
  exact lane?_setLane_self hl rfl

theorem lane?_unlock {row : Row} {held : String} (hrow : lane.row? queue.name = some row)
    (hheld : row.lock = some held) :
    ((⟨clock, .operate (.unlock queue held)⟩ : Call sharding).run s).2.lane? queue.shard =
      some (lane.updateRow queue.name ((RowChange.dropLock held).apply clock.storeNow)) := by
  show ((s.unlock queue held).map _).2.lane? _ = _
  unfold unlock withLane
  rw [Answer.map_snd, hl]
  dsimp only
  rw [hrow]
  dsimp only
  rw [if_pos hheld]
  exact lane?_setLane_self hl rfl

end Remedies

/-- The remedies put a row that was just made in the place of that of the queue, if it has one, and
    change nothing else on its shard. -/
theorem lane?_remedied (calls : List (Call sharding)) (clock : Clock) {queue : QueueRef}
    (hl : (reached calls).lane? queue.shard = some lane) :
    ∃ f : Row → Row, (∀ row, (f row).name = row.name) ∧
      (∀ row, lane.row? queue.name = some row →
        f row = .start row.name row.head clock.storeNow) ∧
      (reached (remedied clock queue calls)).lane? queue.shard =
        some (lane.updateRow queue.name f) := by
  have hafter : reached (remedied clock queue calls) =
      (reached calls).after (remedies clock queue (reached calls) : List (Call sharding)) :=
    List.foldl_append
  have hlock : (reached calls).lockOf queue = (lane.row? queue.name).bind (·.lock) :=
    lockOf_of_lane? hl queue.name
  have hresumed := lane?_resume sharding hl clock
  rw [hafter]
  unfold remedies
  rw [hlock]
  cases hheld : (lane.row? queue.name).bind (·.lock) with
  | none =>
    have hlane := lane?_reset sharding hresumed clock
    rw [Lane.updateRow_updateRow lane queue.name (RowChange.name_apply _ _)] at hlane
    refine ⟨_, ?_, ?_, hlane⟩
    · exact fun row => rfl
    · intro row hrow
      have hunlocked : row.lock = none := by
        rw [hrow] at hheld
        exact hheld
      show Row.mk _ _ _ _ _ row.lock = Row.mk _ _ _ _ _ none
      rw [hunlocked]
      rfl
  | some held =>
    obtain ⟨row, hrow, hlocked⟩ := Option.bind_eq_some_iff.1 hheld
    have hrow' : (lane.updateRow queue.name (RowChange.resume.apply clock.storeNow)).row?
        queue.name = some (RowChange.resume.apply clock.storeNow row) := by
      rw [Lane.row?_updateRow _ _ _ _ (RowChange.name_apply _ _), if_pos rfl, hrow]
      rfl
    have hlane := lane?_reset sharding
      (lane?_unlock sharding hresumed clock hrow' hlocked) clock
    rw [Lane.updateRow_updateRow _ queue.name (RowChange.name_apply _ _),
      Lane.updateRow_updateRow lane queue.name (RowChange.name_apply _ _)] at hlane
    refine ⟨_, ?_, ?_, hlane⟩
    · exact fun row => rfl
    · exact fun row hrow => rfl

/-! ### Every pending item can be had -/

/-- As long as no clock was ahead of an instant, nothing was filed after it. -/
theorem createdAt_le {calls : List (Call sharding)} {latest : Instant}
    (h : ∀ c ∈ calls, c.clock.storeNow ≤ latest) :
    ∀ lane ∈ (reached calls).lanes, ∀ item ∈ lane.items, item.createdAt ≤ latest := by
  refine after_keeps_of_clocks (P := fun s => ∀ lane ∈ s.lanes, ∀ item ∈ lane.items,
    item.createdAt ≤ latest) ?_ (.empty sharding) rfl ?_
  · intro c hc s s' event hs move hold
    cases move with
    | record jobs => exact hold
    | clear =>
      intro lane hl item hi
      obtain ⟨old, -, rfl⟩ := List.mem_map.1 hl
      cases hi
    | @lane lane lane' _ used messages mem step =>
      intro other ho item hi
      obtain ⟨old, hmem, rfl⟩ := mem_replace.1 ho
      by_cases hshard : old.shard = lane'.shard
      · rw [if_pos hshard] at hi
        rcases step.origin (hs.lanes _ mem) hi with ⟨-, hnow⟩ | ⟨a, ha, -, hsame⟩
        · exact hnow ▸ h c hc
        · exact hsame ▸ hold _ mem a ha
      · rw [if_neg hshard] at hi
        exact hold old hmem item hi
  · intro lane hl item hi
    obtain ⟨shard, -, rfl⟩ := List.mem_map.1 hl
    cases hi

/-- In every reachable store, a queue that has a pending item and that no outstanding item blocks
    can be got going: once it is resumed, unlocked and reset, some of as many later polls of its
    shard as the shard has rows hands out an item of the queue.  A queue without a row also has to
    wait until its oldest item was filed, which matters only if the clock was ahead before. -/
theorem nothing_stranded (calls : List (Call sharding)) (clock : Clock) {queue : QueueRef}
    {first : WorkItem} {rest : List WorkItem}
    (hpending : (reached calls).pending queue = .ok (first :: rest))
    (hfree : ∀ token, ¬ (reached calls).IsOutstanding queue token)
    {polls : List Clock} (hlater : ∀ later ∈ polls, clock.storeNow < later.storeNow)
    (hfiled : (∀ c ∈ calls, c.clock.storeNow ≤ clock.storeNow) ∨
      ((reached calls).row? queue = none → ∀ later ∈ polls, first.createdAt < later.storeNow))
    (hl : (reached (remedied clock queue calls)).lane? queue.shard = some lane)
    (hmany : polls.length = lane.ingest.rows.length) :
    ∃ item, item ∈ told (Call.claimed queue) (reached (remedied clock queue calls))
      (polls.map (Call.poll queue.shard) : List (Call sharding)) := by
  obtain ⟨hs, hsharding⟩ := reached_sound calls
  obtain ⟨hs', -⟩ := reached_sound (remedied clock queue calls)
  obtain ⟨old, hold, hof⟩ : ∃ old, (reached calls).lane? queue.shard = some old ∧
      old.pending queue.name = first :: rest := by
    unfold pending readLane at hpending
    cases hold : (reached calls).lane? queue.shard with
    | none =>
      rw [hold] at hpending
      cases hpending
    | some old =>
      rw [hold] at hpending
      exact ⟨old, rfl, Except.ok.inj hpending⟩
  obtain ⟨hmem, hshard⟩ := mem_of_lane? hold
  obtain ⟨f, hname, hstart, hnew⟩ := lane?_remedied calls clock hold
  obtain rfl := Option.some.inj (hl.symm.trans hnew)
  -- the row of the queue after a poll, and when its lease ends
  obtain ⟨head, until_, hrow, hended⟩ : ∃ head until_,
      (old.updateRow queue.name f).poll.row? queue.name = some (.start queue.name head until_) ∧
        ∀ later ∈ polls, until_ < later.storeNow := by
    rw [(hs'.lane hl).row?_poll hof, Lane.row?_updateRow _ _ _ _ hname, if_pos rfl]
    cases hrow : old.row? queue.name with
    | some row =>
      refine ⟨row.head, clock.storeNow, ?_, hlater⟩
      rw [Option.map_some, hstart row hrow, (Lane.mem_of_row? hrow).2]
      rfl
    | none =>
      refine ⟨first.id, first.createdAt, rfl, fun later hin => ?_⟩
      rcases hfiled with hclocks | hpassed
      · have hfirst : first ∈ old.items :=
          (List.mem_filter.1 (hof ▸ List.mem_cons_self : first ∈ old.pending queue.name)).1
        exact Int.lt_of_le_of_lt (createdAt_le hclocks old hmem first hfirst) (hlater later hin)
      · exact hpassed ((row?_of_lane? hold queue.name).trans hrow) later hin
  have hunblocked : old.replayed queue.name = [] := by
    refine List.eq_nil_iff_forall_not_mem.2 fun token htoken => hfree token ?_
    have hsome := ((reached_balanced calls old hmem queue.name).2 token).1 htoken
    rwa [hshard] at hsome
  have hready : (old.updateRow queue.name f).poll.Ready (.start queue.name head until_) :=
    { mem := (Lane.mem_of_row? hrow).1
      sane := by show (0 : Nat) < greatestErrorCount; decide
      running := rfl
      unlocked := rfl
      free := (Lane.blockedBy_poll _ _).trans hunblocked }
  have hfew : ((old.updateRow queue.name f).poll.ahead (.start queue.name head until_)).length <
      polls.length := by
    rw [hmany, ← Lane.rows_poll]
    exact Lane.length_ahead_lt hready.mem
  exact exists_claimed_of_ready hs' hl hready hended hfew

/-- Two items are filed; the queue of the first one is claimed, paused and locked. -/
def heldUp : List (Call .single) :=
  [⟨{ origin := ⟨10⟩ }, .operate (.enqueue "" { url := "http://a/1", queue := some "orders" })⟩,
   ⟨{ origin := ⟨11⟩ }, .operate (.enqueue "" { url := "http://a/2", queue := some "mail" })⟩,
   ⟨{ origin := ⟨12⟩ }, .operate (.next ⟨0, 1⟩)⟩,
   ⟨{ origin := ⟨13⟩ }, .operate (.pause ⟨"orders", ⟨0, 1⟩⟩)⟩,
   ⟨{ origin := ⟨14⟩ }, .operate (.lock ⟨"orders", ⟨0, 1⟩⟩ "audit")⟩]

/-- The item of the queue that is held up. -/
def heldUpItem : WorkItem where
  id := 1
  shard := ⟨0, 1⟩
  url := "http://a/1"
  queueName := "orders"
  debugInfo := none
  createdAt := ⟨10⟩
  lastAttemptedAt := some ⟨12⟩
  isIngested := true
  internal := none
  blocking := .none
  lockWhenComplete := none

theorem not_isOutstanding_of_none (h : ∀ lane ∈ s.lanes, ∀ item ∈ lane.items, item.blocking = .none)
    (queue : QueueRef) (token : BlockToken) : ¬ s.IsOutstanding queue token := by
  rintro ⟨lane, hl, item, hi, hblocks, -⟩
  rw [h lane hl item hi] at hblocks
  cases hblocks

theorem held_up_queue_is_served :
    (reached heldUp).pending ⟨"orders", ⟨0, 1⟩⟩ = .ok [heldUpItem] ∧
      (∀ token, ¬ (reached heldUp).IsOutstanding ⟨"orders", ⟨0, 1⟩⟩ token) ∧
      (reached heldUp).lockOf ⟨"orders", ⟨0, 1⟩⟩ = some "audit" ∧
      ∃ item, item ∈ told (Call.claimed ⟨"orders", ⟨0, 1⟩⟩)
        (reached (remedied { origin := ⟨15⟩ } ⟨"orders", ⟨0, 1⟩⟩ heldUp))
        ([{ origin := ⟨16⟩ }, { origin := ⟨17⟩ }].map (.poll ⟨0, 1⟩) : List (Call .single)) := by
  have hpending : (reached heldUp).pending ⟨"orders", ⟨0, 1⟩⟩ = .ok [heldUpItem] := rfl
  have hfree : ∀ token, ¬ (reached heldUp).IsOutstanding ⟨"orders", ⟨0, 1⟩⟩ token :=
    not_isOutstanding_of_none (by decide) _
  refine ⟨hpending, hfree, rfl, ?_⟩
  exact nothing_stranded heldUp { origin := ⟨15⟩ } hpending hfree (by decide) (Or.inl (by decide))
    rfl rfl

/-- An item is filed, and the clock is set back afterwards. -/
def filedAhead : List (Call .single) :=
  [⟨{ origin := ⟨100⟩ }, .operate (.enqueue "" { url := "http://a/1", queue := some "orders" })⟩]

/-- A queue that never had a row is not served before the clock has passed the filing of its item
    once more, even if an operator resumes, unlocks and resets it. -/
theorem waits_for_its_filing :
    ∃ lane item,
      (reached filedAhead).pending ⟨"orders", ⟨0, 1⟩⟩ = .ok [item] ∧
      (∀ token, ¬ (reached filedAhead).IsOutstanding ⟨"orders", ⟨0, 1⟩⟩ token) ∧
      (reached (remedied { origin := ⟨0⟩ } ⟨"orders", ⟨0, 1⟩⟩ filedAhead)).lane? ⟨0, 1⟩ =
        some lane ∧
      lane.ingest.rows.length = 1 ∧
      told (Call.claimed ⟨"orders", ⟨0, 1⟩⟩)
        (reached (remedied { origin := ⟨0⟩ } ⟨"orders", ⟨0, 1⟩⟩ filedAhead))
        ([{ origin := ⟨1⟩ }].map (Call.poll ⟨0, 1⟩) : List (Call .single)) = [] :=
  ⟨_, _, rfl, not_isOutstanding_of_none (by decide) _, rfl, rfl, rfl⟩

end Store

end Courier
