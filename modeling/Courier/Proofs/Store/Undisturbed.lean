/-
  Courier/Proofs/Store/Undisturbed.lean
  =====================================
  **Stores in which nothing but a block holds an item back.**

  A lane is undisturbed at an instant if it holds only items that were filed, and no
  row is leased, backed off, paused or locked.  Linking new items keeps a lane so if
  they were filed before the instant, and completing the item that is handed out
  does if no item puts a lock on its queue (`Lane.Undisturbed.complete`).  What is
  pending in an undisturbed lane at rest is blocked, and what blocks it is pending
  too; if the queues do not block one another in a circle, nothing is pending at all
  (`Store.nothing_pending_of_atRest`).
-/
import Courier.Proofs.Store.Blocking
import Courier.Proofs.Store.Filings
import Courier.Proofs.Store.Unspent
import Courier.Proofs.Store.Waiting
import Mathlib.Order.WellFoundedSet

namespace Courier

open Courier.Time

/-- Whether an item can be requested at an instant and puts no lock on its queue. -/
structure WorkItem.IsPlain (item : WorkItem) (now : Instant) : Prop where
  real : item.isPlaceholder = false
  unlocking : item.lockWhenComplete = none
  early : item.createdAt < now

/-- Whether an item is one that was filed, of which no lock was taken back. -/
def WorkItem.IsOf (item filed : WorkItem) : Prop := item.Continues (fun _ _ => False) filed

theorem WorkItem.IsPlain.of {item filed : WorkItem} {now : Instant} (h : filed.IsPlain now)
    (hof : item.IsOf filed) : item.IsPlain now where
  real := by
    unfold isPlaceholder
    rw [hof.url]
    exact h.real
  unlocking := by
    rcases hof.lock with hsame | ⟨lock, -, -, htaken⟩
    · exact hsame.trans h.unlocking
    · exact htaken.elim
  early := by
    rw [hof.createdAt]
    exact h.early

/-! ### Undisturbed lanes -/

/-- Whether a row is neither leased nor backed off, paused or locked. -/
structure Row.IsFree (row : Row) (now : Instant) : Prop where
  open_ : row.lockedUntil < now
  sane : row.errorCount = 0
  running : row.isPaused = false
  unlocked : row.lock = none

namespace Lane

variable {sharding : Sharding} {now : Instant} {bound : WorkItemId} {l l' : Lane} {item : WorkItem}
variable {row : Row} {used : Int} {messages : List BlockingMessage} {filings : List WorkItem}

/-- Whether a lane holds only items that were filed and every row of it is free. -/
structure Undisturbed (filings : List WorkItem) (now : Instant) (l : Lane) : Prop where
  origin : ∀ item ∈ l.held, ∃ filed ∈ filings, item.IsOf filed
  rows : ∀ row ∈ l.rows, row.IsFree now
  recent : ∀ done ∈ l.completed, done.completedAt = now

theorem Undisturbed.plain (h : l.Undisturbed filings now)
    (hplain : ∀ filed ∈ filings, filed.IsPlain now) (hi : item ∈ l.items) : item.IsPlain now := by
  obtain ⟨filed, hf, hof⟩ := h.origin item (mem_held.2 (Or.inl hi))
  exact (hplain filed hf).of hof

/-- What a lane holds is filed if it continues what another one held. -/
theorem Undisturbed.origin_of (h : l.Undisturbed filings now)
    (hheld : ∀ b ∈ l'.held, ∃ a ∈ l.held, b.IsOf a) :
    ∀ item ∈ l'.held, ∃ filed ∈ filings, item.IsOf filed := by
  intro b hb
  obtain ⟨a, ha, hba⟩ := hheld b hb
  obtain ⟨filed, hf, hof⟩ := h.origin a ha
  exact ⟨filed, hf, hba.trans hof⟩

theorem Undisturbed.poll (h : l.Undisturbed filings now) (hs : l.Sound sharding bound)
    (hplain : ∀ filed ∈ filings, filed.IsPlain now) : l.poll.Undisturbed filings now where
  origin := h.origin_of fun b hb => by
    refine held_of_map (g := fun item => { item with isIngested := true }) ?_ ?_ ?_ hb
    · exact items_poll l
    · exact completed_poll l
    · exact fun a _ => .linking _ a
  rows := by
    intro row hr
    rw [rows_poll] at hr
    rcases row_ingest_cases hs hr with hold | ⟨-, item, hi, rfl, -⟩
    · exact h.rows row hold
    · exact ⟨(h.plain hplain hi).early, rfl, rfl, rfl⟩
  recent := by
    rw [completed_poll]
    exact h.recent

theorem Undisturbed.receive (h : l.Undisturbed filings now) (messages : List BlockingMessage) :
    (l.receive messages).Undisturbed filings now := ⟨h.origin, h.rows, h.recent⟩

/-- Whether the rows other than one are free, and that one is neither paused nor locked. -/
theorem Undisturbed.row_lease (h : l.Undisturbed filings now) {leased : Row}
    (hr : leased ∈ (l.lease now row item).rows) :
    leased.isPaused = false ∧ leased.lock = none ∧
      (leased.name ≠ row.name → leased.IsFree now) := by
  obtain ⟨old, hold, rfl⟩ := List.mem_map.1 hr
  have hfree := h.rows old hold
  split
  · rename_i hname
    exact ⟨hfree.running, hfree.unlocked, fun hne => absurd hname hne⟩
  · exact ⟨hfree.running, hfree.unlocked, fun _ => hfree⟩

theorem held_lease (hs : l.Sound sharding bound) (h : l.IsCandidate now row item) {b : WorkItem}
    (hb : b ∈ (l.lease now row item).held) : ∃ a ∈ l.held, b.IsOf a := by
  let leased : Lane := l.updateRow row.name fun r => { r with lockedUntil := now + leaseDuration }
  have hleased : leased.Sound sharding bound := hs.updateRow _ (fun _ => rfl) fun _ => rfl
  exact held_of_setItem (l := leased) hleased h.item (.attempted _ item now) hb

/-- Completing what is handed out keeps an undisturbed lane so; it uses no number and archives the
    item. -/
theorem Undisturbed.complete (h : l.Undisturbed filings now) (hs : l.Sound sharding bound)
    (hplain : ∀ filed ∈ filings, filed.IsPlain now) (hc : l.IsCandidate now row item)
    {locked : Lane} (hlocks : Store.Locks (l.lease now row item) now (item.attempted now) locked)
    (step : locked.Step sharding now bound (.completed (item.attempted now)) l' used messages) :
    l'.Undisturbed filings now ∧ used = 0 ∧
      l'.completed = l.completed ++ [⟨item.attempted now, now⟩] := by
  have hunlocking : (item.attempted now).lockWhenComplete = none :=
    (h.plain hplain hc.item).unlocking
  -- the item puts no lock on its queue, so there is nothing to lock before it is completed
  obtain rfl : locked = l.lease now row item := by
    rcases hlocks with ⟨-, hsame⟩ | ⟨lock, hlock, -⟩
    · exact hsame
    · rw [hunlocking] at hlock
      cases hlock
  have hmem : item.attempted now ∈ (l.lease now row item).items := by
    cases step with
    | advance head => exact (mem_of_head head).1
    | relay head => exact (mem_of_head head).1
    | finish head => exact (mem_of_head head).1
  have hitem : ∀ next ∈ (l.lease now row item).items, next.IsPlain now := by
    intro next hn
    obtain ⟨a, ha, hof⟩ := held_lease hs hc (mem_held.2 (Or.inl hn))
    obtain ⟨filed, hf, hfiled⟩ := h.origin a ha
    exact (hplain filed hf).of (hof.trans hfiled)
  have hrecent : ∀ done ∈ l.completed ++ [⟨item.attempted now, now⟩], done.completedAt = now := by
    intro done hd
    rcases List.mem_append.1 hd with hold | hnew
    · exact h.recent done hold
    · rw [List.mem_singleton.1 hnew]
  cases step with
  | @advance _ next _ head free locked successor =>
    refine ⟨⟨h.origin_of fun b hb => ?_, ?_, hrecent⟩, rfl, rfl⟩
    · exact held_lease hs hc (held_of_retire hmem hb)
    · intro r hr
      obtain ⟨old, hold, rfl⟩ := List.mem_map.1 hr
      obtain ⟨hrunning, hunlocked, hfree⟩ := h.row_lease hold
      split
      · exact ⟨(hitem next (successor?_spec successor).1).early, rfl, hrunning, hunlocked⟩
      · rename_i hname
        exact hfree fun hsame => hname (hsame.trans hc.name.symm)
  | @relay _ held head free locked last kept =>
    obtain ⟨-, hr, -⟩ := mem_of_head head
    obtain ⟨hrunning, hunlocked, -⟩ := h.row_lease hr
    rw [hrunning, hunlocked] at kept
    -- a placeholder follows only if the queue is paused or locked, and it is neither
    rcases kept with hpaused | hlocked
    · cases hpaused
    · cases hlocked
  | finish head free unlocked last given =>
    refine ⟨⟨h.origin_of fun b hb => ?_, ?_, hrecent⟩, rfl, rfl⟩
    · exact held_lease hs hc (held_of_retire hmem hb)
    · intro r hr
      obtain ⟨hold, hname⟩ := List.mem_filter.1 hr
      refine (h.row_lease hold).2.2 fun hsame => of_decide_eq_true hname ?_
      exact hsame.trans hc.name.symm

theorem Undisturbed.not_purged (h : l.Undisturbed filings now) (budget : Nat) :
    (Store.purged (now - completedRetention) budget l.completed).1 = l.completed := by
  have hlate : ¬ now < now - completedRetention := by
    rw [Instant.lt_iff]
    show ¬ now.nanos < now.nanos - completedRetention.nanos
    have hpos : (0 : Int) ≤ completedRetention.nanos := by decide
    omega
  have hrecent := h.recent
  generalize l.completed = archive at hrecent
  induction archive generalizing budget with
  | nil => rfl
  | cons done rest ih =>
    have hdone : ¬ done.completedAt < now - completedRetention := by
      rw [hrecent done List.mem_cons_self]
      exact hlate
    unfold Store.purged
    rw [if_neg fun hold => hdone hold.1]
    exact congrArg (done :: ·) (ih budget fun other ho => hrecent other (List.mem_cons_of_mem _ ho))

/-! ### Blocked items -/

/-- An item that is pending in an undisturbed lane at rest is of a blocked queue. -/
theorem Undisturbed.blocked (h : l.Undisturbed filings now) (hs : l.Sound sharding bound)
    (hrest : l.AtRest now) (hi : item ∈ l.items) : l.blockedBy item.queueName ≠ [] := by
  intro hfree
  obtain ⟨row, hr, hname⟩ := hs.rowOf item hi (hrest.linked item hi)
  have hrow := h.rows row hr
  have hcount : row.errorCount < greatestErrorCount := by
    rw [hrow.sane]
    decide
  have hclaimable : l.Claimable now row :=
    ⟨hrow.open_, hcount, hrow.running, hrow.unlocked, hname ▸ hfree⟩
  exact candidate?_ne_none hr hclaimable hrest.nothing

theorem Sound.blockedBy_ne_nil (h : l.Sound sharding bound) {entry : String × List BlockToken}
    (he : entry ∈ l.blocks) : l.blockedBy entry.1 ≠ [] := by
  unfold blockedBy
  cases hfound : l.blocks.find? (·.1 = entry.1) with
  | none => exact absurd rfl (Keyed.find?_eq_none.1 hfound entry he)
  | some other => exact h.blocks other (List.mem_of_find?_eq_some hfound)

end Lane

/-! ### Circles of queues -/

/-- Whether an item that was filed in a queue blocks another queue. -/
def BlockedIn (filings : List WorkItem) (name target : String) : Prop :=
  ∃ filed ∈ filings, filed.queueName = name ∧
    ∃ queue, filed.blocking = .queue queue ∧ queue.name = target

/-- Names each of which is blocked by another one of them are in a circle. -/
theorem exists_circle {filings : List WorkItem} {names : List String} (hsome : names ≠ [])
    (hblocked : ∀ name ∈ names, ∃ other ∈ names, BlockedIn filings other name) :
    ∃ name, Relation.TransGen (BlockedIn filings) name name := by
  by_contra hnone
  -- without a circle the names are strictly ordered by what blocks them, and one is the least
  have horder : IsStrictOrder String (Relation.TransGen (BlockedIn filings)) :=
    { irrefl := fun name hcircle => hnone ⟨name, hcircle⟩
      trans := fun _ _ _ => .trans }
  have hfinite : {name | name ∈ names}.Finite := names.finite_toSet
  obtain ⟨first, hfirst⟩ := List.exists_mem_of_ne_nil names hsome
  have hfounded : {name | name ∈ names}.WellFoundedOn (Relation.TransGen (BlockedIn filings)) :=
    hfinite.wellFoundedOn
  obtain ⟨least, -, hleast⟩ := hfounded.has_min Set.univ ⟨⟨first, hfirst⟩, trivial⟩
  obtain ⟨other, ho, hblocks⟩ := hblocked least.1 least.2
  exact hleast ⟨other, ho⟩ trivial (.single hblocks)

namespace Store

variable {s : Store} {now : Instant} {filings : List WorkItem}

/-- What blocks a queue of a lane at rest is pending. -/
theorem Balanced.exists_blocker (hb : s.Balanced) {lane : Lane} (hl : lane ∈ s.lanes)
    (hrest : lane.AtRest now) {name : String} (hblocked : lane.blockedBy name ≠ []) :
    ∃ other ∈ s.lanes, ∃ blocker ∈ other.items, blocker.blocking = .queue ⟨name, lane.shard⟩ := by
  obtain ⟨token, htoken⟩ := List.exists_mem_of_ne_nil _ hblocked
  have hreplayed : token ∈ lane.replayed name := by
    unfold Lane.replayed
    rw [hrest.read]
    exact htoken
  obtain ⟨other, ho, blocker, hbi, hblocks, -⟩ := ((hb lane hl name).2 token).1 hreplayed
  exact ⟨other, ho, blocker, hbi, hblocks⟩

/-- If all lanes of a store are undisturbed and at rest, and no queues block one another in a
    circle, then nothing is pending. -/
theorem nothing_pending_of_atRest (hs : s.Sound) (hb : s.Balanced)
    (hlanes : ∀ lane ∈ s.lanes, lane.Undisturbed filings now ∧ lane.AtRest now)
    (hacyclic : ∀ name, ¬ Relation.TransGen (BlockedIn filings) name name) :
    ∀ lane ∈ s.lanes, lane.items = [] := by
  let names : List String := s.lanes.flatMap fun lane => lane.items.map (·.queueName)
  have hblocked : ∀ name ∈ names, ∃ other ∈ names, BlockedIn filings other name := by
    intro name hn
    obtain ⟨lane, hl, hn⟩ := List.mem_flatMap.1 hn
    obtain ⟨item, hi, rfl⟩ := List.mem_map.1 hn
    obtain ⟨hquiet, hrest⟩ := hlanes lane hl
    obtain ⟨other, ho, blocker, hbi, hblocks⟩ :=
      hb.exists_blocker hl hrest (hquiet.blocked (hs.lanes lane hl) hrest hi)
    obtain ⟨filed, hf, hof⟩ := (hlanes other ho).1.origin blocker (Lane.mem_held.2 (Or.inl hbi))
    refine ⟨blocker.queueName, List.mem_flatMap.2 ⟨other, ho, List.mem_map_of_mem hbi⟩, ?_⟩
    exact ⟨filed, hf, hof.queueName.symm, _, hof.blocking.symm.trans hblocks, rfl⟩
  have hnone : names = [] := by
    by_contra hsome
    obtain ⟨name, hcircle⟩ := exists_circle hsome hblocked
    exact hacyclic name hcircle
  intro lane hl
  exact List.map_eq_nil_iff.1 (List.flatMap_eq_nil_iff.1 hnone lane hl)

/-- If nothing is pending, a lane at rest is empty but for its archive. -/
theorem empty_of_nothing_pending (hs : s.Sound) (hb : s.Balanced)
    (hnone : ∀ lane ∈ s.lanes, lane.items = []) {lane : Lane} (hl : lane ∈ s.lanes)
    (hrest : lane.AtRest now) :
    lane.items = [] ∧ lane.rows = [] ∧ lane.blocks = [] ∧ lane.mailbox = [] := by
  have hsound := hs.lanes lane hl
  refine ⟨hnone lane hl, ?_, ?_, hrest.read⟩
  · refine List.eq_nil_iff_forall_not_mem.2 fun row hr => ?_
    obtain ⟨item, hi, -⟩ := hsound.head row hr
    rw [hnone lane hl] at hi
    cases hi
  · refine List.eq_nil_iff_forall_not_mem.2 fun entry he => ?_
    obtain ⟨other, ho, blocker, hbi, -⟩ := hb.exists_blocker hl hrest (hsound.blockedBy_ne_nil he)
    rw [hnone other ho] at hbi
    cases hbi

/-! ### Histories that only file -/

section Filing

variable {sharding : Sharding} {c : Call sharding}

theorem told_eq_nil {α : Type} {tell : Call sharding → Store → List α}
    {calls : List (Call sharding)} (h : ∀ c ∈ calls, ∀ s, tell c s = []) (s : Store) :
    told tell s calls = [] := by
  induction calls generalizing s with
  | nil => rfl
  | cons c rest ih =>
    show tell c s ++ told tell (c.run s).2 rest = []
    rw [h c List.mem_cons_self, ih fun d hd => h d (List.mem_cons_of_mem _ hd)]
    rfl

/-- Whether a call files an item that puts no lock on its queue. -/
def Call.OnlyFiles (c : Call sharding) : Prop :=
  ∃ freshName item, c.request = .operate (.enqueue freshName item) ∧ item.lockWhenComplete = none

/-- Whether a store holds what was filed and nothing of it was looked at. -/
structure JustFiled (filings : List WorkItem) (s : Store) : Prop where
  held : ∀ item, item ∈ s.held ↔ item ∈ filings
  plain : ∀ filed ∈ filings, filed.isPlaceholder = false ∧ filed.lockWhenComplete = none
  idle : ∀ lane ∈ s.lanes, lane.rows = [] ∧ lane.completed = []

theorem JustFiled.empty (sharding : Sharding) : (Store.empty sharding).JustFiled [] where
  held := fun item => by rw [held_empty]
  plain := fun filed hf => absurd hf List.not_mem_nil
  idle := by
    intro lane hl
    obtain ⟨shard, -, rfl⟩ := List.mem_map.1 hl
    exact ⟨rfl, rfl⟩

/-- Filing an item comes to inserting a prepared item, or to nothing. -/
theorem Call.OnlyFiles.cases (h : c.OnlyFiles) (hs : s.Sound) :
    (c.filings s = [] ∧ (c.run s).2 = s) ∨
    ∃ p : PreparedItem, p.IsFor s.sharding ∧ p.lockWhenComplete = none ∧
      ∃ result s', s.insert c.clock.storeNow p = (.ok result, s') ∧ (c.run s).2 = s' ∧
        c.filings s = result.filing p c.clock.storeNow := by
  obtain ⟨freshName, item, hc, hlock⟩ := h
  have hanswer : c.run s = (s.enqueue c.clock.storeNow freshName item).map .enqueued :=
    Call.run_operate hc s
  unfold enqueue at hanswer
  unfold Call.filings
  rw [hc]
  dsimp only
  cases hprepare : item.prepare s.sharding freshName with
  | error e =>
    rw [hprepare] at hanswer
    rw [hanswer]
    exact Or.inl ⟨rfl, rfl⟩
  | ok p =>
    have hp : p.IsFor s.sharding := ⟨freshName, item, hprepare⟩
    have hfiled := NewItem.toWorkItem_of_prepare hprepare
    obtain ⟨result, s', hinsert, -⟩ := insert_moves hs hp c.clock.storeNow
    rw [hprepare] at hanswer
    dsimp only at hanswer
    rw [hinsert] at hanswer
    refine Or.inr ⟨p, hp, ?_, result, s', hinsert, ?_, ?_⟩
    · have hsame := congrArg WorkItem.lockWhenComplete (hfiled 0 c.clock.storeNow)
      exact hsame.trans hlock
    · rw [hanswer]
      rfl
    · rw [hanswer]
      cases result with
      | created id queue =>
        show [item.filedAs s.sharding freshName id c.clock.storeNow] = [p.toWorkItem id _]
        rw [hfiled]
      | duplicate existing queue => rfl

theorem JustFiled.run (h : s.JustFiled filings) (hs : s.Sound) (hc : c.OnlyFiles) :
    (c.run s).2.JustFiled (filings ++ c.filings s) := by
  rcases hc.cases hs with ⟨hnone, hsame⟩ | ⟨p, hp, hlock, result, s', hinsert, hrun, hfilings⟩
  · rw [hnone, hsame, List.append_nil]
    exact h
  rw [hrun, hfilings]
  obtain ⟨result', s₁, hinsert', -, -, hheld, -⟩ := insert_filing hs hp c.clock.storeNow
  rw [hinsert] at hinsert'
  obtain ⟨hresult, rfl⟩ := Prod.mk.inj hinsert'
  obtain rfl := Except.ok.inj hresult
  constructor
  case held =>
    intro item
    rw [hheld, h.held, List.mem_append]
  case plain =>
    intro filed hf
    rcases List.mem_append.1 hf with hold | hnew
    · exact h.plain filed hold
    · cases result with
      | created id queue =>
        rw [List.mem_singleton.1 hnew]
        obtain ⟨freshName, item, hprepare⟩ := hp
        exact ⟨decide_eq_false (NewItem.prepare_spec hprepare).1, hlock⟩
      | duplicate existing queue => cases hnew
  case idle =>
    intro lane hl
    obtain ⟨target, htarget, ⟨existing, -, hsame⟩ | ⟨-, hadded⟩⟩ :=
      insert_cases hs hp c.clock.storeNow
    · rw [hinsert] at hsame
      obtain ⟨-, rfl⟩ := Prod.mk.inj hsame
      exact h.idle lane hl
    · rw [hinsert] at hadded
      obtain ⟨-, rfl⟩ := Prod.mk.inj hadded
      obtain ⟨old, ho, rfl⟩ := mem_replace.1 hl
      split
      · exact h.idle target (mem_of_lane? htarget).1
      · exact h.idle old ho

theorem JustFiled.after (h : s.JustFiled filings) (hs : s.Sound) (hsharding : s.sharding = sharding)
    {calls : List (Call sharding)} (hcalls : ∀ c ∈ calls, c.OnlyFiles) :
    (s.after calls).JustFiled (filings ++ told Call.filings s calls) := by
  induction calls generalizing s filings with
  | nil =>
    show s.JustFiled (filings ++ [])
    rw [List.append_nil]
    exact h
  | cons c rest ih =>
    obtain ⟨hs', hsharding'⟩ := c.run_sound hs hsharding
    have hrest := ih (h.run hs (hcalls c List.mem_cons_self)) hs' hsharding'
      fun d hd => hcalls d (List.mem_cons_of_mem _ hd)
    rw [List.append_assoc] at hrest
    exact hrest

/-- The items that a history of a new store files. -/
def filed (calls : List (Call sharding)) : List WorkItem :=
  told Call.filings (Store.empty sharding) calls

theorem justFiled_reached {calls : List (Call sharding)} (hcalls : ∀ c ∈ calls, c.OnlyFiles) :
    (reached calls).JustFiled (filed calls) :=
  (JustFiled.empty sharding).after (.empty sharding) rfl hcalls

theorem distinct_filed (calls : List (Call sharding)) : ((filed calls).map (·.id)).Nodup :=
  (filings_ascend (.empty sharding) rfl calls).1.imp Int.ne_of_lt

/-- The numbers of a store in which items were only filed are those of the items. -/
theorem ids_justFiled {calls : List (Call sharding)} (hcalls : ∀ c ∈ calls, c.OnlyFiles) :
    (reached calls).ids.Perm ((filed calls).map (·.id)) := by
  have hids := nodup_ids_reached calls
  refine (List.perm_ext_iff_of_nodup hids (distinct_filed calls)).2 fun id => ?_
  rw [ids_eq_held, List.mem_map, List.mem_map]
  exact exists_congr fun item => and_congr_left fun _ => (justFiled_reached hcalls).held item

/-- The line of a queue in which items were only filed is what was filed. -/
theorem line_justFiled {calls : List (Call sharding)} (hcalls : ∀ c ∈ calls, c.OnlyFiles)
    (queue : QueueRef) : (reached calls).line queue = numbersIn queue (filed calls) := by
  have hclear : ∀ c ∈ calls, c.request ≠ .operate .clear := by
    intro c hc hclear
    obtain ⟨freshName, item, hfiles, -⟩ := hcalls c hc
    cases hclear.symm.trans hfiles
  have hcompleted : told Call.completed (Store.empty sharding) calls = [] := by
    refine told_eq_nil (fun c hc s => ?_) _
    obtain ⟨freshName, item, hfiles, -⟩ := hcalls c hc
    unfold Call.completed
    rw [hfiles]
  have hstart : (Store.empty sharding).sharding = sharding := rfl
  have hline := line_after (.empty sharding) hstart hclear queue
  rw [line_empty, hcompleted, ← numbersIn_filings (.empty sharding) hstart] at hline
  exact hline.symm

theorem JustFiled.undisturbed (h : s.JustFiled filings) :
    ∀ lane ∈ s.lanes, lane.Undisturbed filings now := by
  intro lane hl
  obtain ⟨hrows, hcompleted⟩ := h.idle lane hl
  refine ⟨fun item hi => ⟨item, (h.held item).1 (mem_held.2 ⟨lane, hl, hi⟩), .refl _ item⟩, ?_, ?_⟩
  · rw [hrows]
    exact fun row hr => absurd hr List.not_mem_nil
  · rw [hcompleted]
    exact fun done hd => absurd hd List.not_mem_nil

theorem JustFiled.completedIds (h : s.JustFiled filings) : s.completedIds = [] := by
  refine List.flatMap_eq_nil_iff.2 fun lane hl => ?_
  rw [(h.idle lane hl).2]
  rfl

end Filing

end Store

end Courier
