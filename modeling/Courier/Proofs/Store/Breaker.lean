/-
  Courier/Proofs/Store/Breaker.lean
  =================================
  **Errors are counted, and a queue with too many is left alone.**

  The errors of a queue are counted on its row, against the item that heads it.  A
  failure of the head adds one, a delay of the head and a reset of the queue begin
  anew, and so does whatever gives the row another head; no other call touches the
  count (`Store.Call.counts`).  So the count is the number of failures since it was
  begun last (`Store.tally_after`), whoever reported them and in whatever order.  A
  queue that has reached the greatest count is not claimed, and it is one of those
  that the health of the store counts.

  Each failure also backs the queue off.  That is a lease of the head like any
  other, and lasts as long as nobody settles the head or resets the queue.
-/
import Courier.Proofs.Store.Lease
import Courier.Proofs.Store.Refusal
import Courier.Proofs.Store.Turnover
import Mathlib.Data.List.Induction
import Mathlib.Data.List.Nodup

namespace Courier

open Courier.Time

/-! ### The tally of a queue -/

/-- The head of a row and the errors counted against it. -/
def Row.tally (row : Row) : WorkItemId × Nat := (row.head, row.errorCount)

/-- Whether a tally is as it was, or a new one without errors. -/
def Stays (before after : Option (WorkItemId × Nat)) : Prop :=
  after = before ∨ (before = none ∧ ∃ head, after = some (head, 0))

theorem Stays.trans {a b c : Option (WorkItemId × Nat)} (h : Stays a b) (h' : Stays b c) :
    Stays a c := by
  rcases h' with rfl | ⟨rfl, hnew⟩
  · exact h
  · rcases h with hsame | ⟨-, head, hhead⟩
    · exact Or.inr ⟨hsame.symm, hnew⟩
    · cases hhead

namespace RowStep

variable {now : Instant} {queue : QueueRef} {event : Event} {before after : Option Row}

/-- A move that gives up no lease of a queue leaves its tally. -/
theorem stays (h : RowStep now queue event before after) (hkept : ¬ event.Frees queue) :
    Stays (before.map Row.tally) (after.map Row.tally) := by
  cases h with
  | keep apart => exact Or.inl rfl
  | @start event id at_ apart => exact Or.inr ⟨rfl, id, rfl⟩
  | lease late untripped => exact Or.inl rfl
  | change c row? =>
    refine Or.inl ?_
    rw [Option.map_map]
    cases c with
    | reset => exact absurd rfl hkept
    | fail => exact absurd rfl hkept
    | delay => exact absurd rfl hkept
    | _ => rfl
  | rehead own retired other => exact absurd own hkept
  | remove own retired free => exact absurd own hkept
  | clear row? => exact absurd trivial hkept

theorem of_changed {c : RowChange} (h : RowStep now queue (.changed queue c) before after) :
    after = before.map (c.apply now) := by
  cases h with
  | keep apart => exact absurd rfl apart
  | start apart => exact absurd rfl apart
  | change c row? => rfl

/-- Once the head of a queue is completed, its row is gone or has another head and no errors. -/
theorem of_completed {item : WorkItem} (h : RowStep now queue (.completed item) before after)
    (hown : item.queueRef = queue) :
    ∀ tally, after.map Row.tally = some tally → tally.1 ≠ item.id ∧ tally.2 = 0 := by
  cases h with
  | keep apart => exact absurd hown apart
  | start apart => exact absurd hown apart
  | rehead own retired other =>
    rintro tally ⟨⟩
    exact ⟨other, rfl⟩
  | remove own retired free =>
    rintro tally ⟨⟩

end RowStep

namespace Store

variable {sharding : Sharding} {s s' : Store} {now : Instant} {queue : QueueRef}

/-- The head of a queue and the errors counted against it, if the queue has a row. -/
def tally? (s : Store) (queue : QueueRef) : Option (WorkItemId × Nat) :=
  (s.row? queue).map Row.tally

theorem tally?_of_row? {row? : Option Row} (h : s.row? queue = row?) :
    s.tally? queue = row?.map Row.tally :=
  congrArg (Option.map Row.tally) h

theorem head_of_tally? (s : Store) (queue : QueueRef) :
    (s.row? queue).map (·.head) = (s.tally? queue).map Prod.fst := by
  unfold tally?
  rw [Option.map_map]
  rfl

theorem Moves.stays {events : List Event} (hs : s.Sound) (h : Moves now s events s')
    (hkept : ∀ event ∈ events, ¬ event.Frees queue) : Stays (s.tally? queue) (s'.tally? queue) := by
  induction h with
  | nil s => exact Or.inl rfl
  | cons move _ ih =>
    have hfirst := (move.row? hs queue).stays (hkept _ List.mem_cons_self)
    exact hfirst.trans (ih (move.sound hs) fun event he => hkept event (List.mem_cons_of_mem _ he))

/-! ### What a call counts -/

/-- The head of a queue, if a call fails it. -/
def Call.failed (queue : QueueRef) (c : Call sharding) (s : Store) : List WorkItemId :=
  match c.request with
  | .operate (.fail id shard) =>
    match (c.run s).1 with
    | .ok .done => if s.IsHead queue shard id then [id] else []
    | _ => []
  | _ => []

/-- Whether a call begins the count of a queue anew: the row of the queue gets another head, is made
    or removed, or the call delays the head of the queue or resets the queue. -/
def Call.Restarts (queue : QueueRef) (c : Call sharding) (s : Store) : Prop :=
  ((c.run s).2.row? queue).map (·.head) ≠ (s.row? queue).map (·.head) ∨
  (∃ id shard, c.request = .operate (.delay id shard) ∧ (c.run s).1 = .ok .done ∧
    s.IsHead queue shard id) ∨
  c.request = .operate (.reset queue)

/-- Whether no call of a history begins the count of a queue anew. -/
def CountsOn (queue : QueueRef) (s : Store) : List (Call sharding) → Prop
  | [] => True
  | c :: calls => ¬ c.Restarts queue s ∧ CountsOn queue (c.run s).2 calls

/-- What a call can make of the count of a queue. -/
inductive Call.Counts (queue : QueueRef) (c : Call sharding) (s : Store) : Prop where
  | keeps (on : ¬ c.Restarts queue s) (unfailed : c.failed queue s = [])
      (same : (c.run s).2.tally? queue = s.tally? queue)
  | counts {id : WorkItemId} {errors : Nat} (on : ¬ c.Restarts queue s)
      (failed : c.failed queue s = [id]) (before : s.tally? queue = some (id, errors))
      (after : (c.run s).2.tally? queue = some (id, errors + 1))
  | restarts (anew : c.Restarts queue s)
      (after : ∀ tally, (c.run s).2.tally? queue = some tally → tally.2 = 0)

/-- What is settled but not completed has its row changed. -/
theorem settleRow_row? (hs : s.Sound) {id : WorkItemId} {shard : Shard} {change : RowChange}
    (hfits : ∀ row, change.Fits row) (hhead : s.IsHead queue shard id)
    (hok : (s.settleRow id shard (change.apply now)).1 = .ok ()) :
    (s.settleRow id shard (change.apply now)).2.row? queue =
      (s.row? queue).map (change.apply now) := by
  rcases settleRow_cases s id shard (change.apply now) with
    ⟨e, hrun⟩ | ⟨lane, item, row, hl, hfound, hrun⟩
  · rw [hrun] at hok
    cases hok
  · obtain ⟨hmem, rfl⟩ := mem_of_lane? hl
    have hitem : s.item? lane.shard id = some item := by
      rw [item?_of_lane? hl]
      exact (Lane.head_eq_ok_iff.1 hfound).1
    obtain ⟨-, rfl⟩ := hs.head_name hhead hitem
    have hmove : Move now s (.changed ⟨item.queueName, lane.shard⟩ change) _ :=
      Move.updateRow hmem fun row _ => hfits row
    rw [hrun]
    exact (hmove.row? hs _).of_changed

theorem reset_row? (hs : s.Sound) (now : Instant) (queue : QueueRef) :
    (s.reset now queue).2.row? queue = (s.row? queue).map (RowChange.reset.apply now) := by
  unfold reset withLane
  cases hl : s.lane? queue.shard with
  | none =>
    unfold Store.row?
    rw [hl]
    rfl
  | some lane =>
    obtain ⟨hmem, hshard⟩ := mem_of_lane? hl
    have hmove : Move now s (.changed ⟨queue.name, lane.shard⟩ .reset) _ :=
      Move.updateRow hmem fun _ _ => trivial
    rw [hshard] at hmove
    exact (hmove.row? hs queue).of_changed

section Counts

variable {c : Call sharding}

theorem IsHead.tally? {shard : Shard} {id : WorkItemId} (h : s.IsHead queue shard id) :
    ∃ errors, s.tally? queue = some (id, errors) := by
  obtain ⟨row, hrow, rfl⟩ := Option.map_eq_some_iff.1 h.2
  exact ⟨row.errorCount, tally?_of_row? hrow⟩

theorem Call.failed_eq_nil (h : ¬ c.Frees queue s) : c.failed queue s = [] := by
  unfold Call.Frees at h
  unfold Call.failed
  split
  · rename_i id shard hc
    rw [hc] at h
    split
    · rename_i hok
      exact if_neg fun hhead => h ⟨hok, hhead⟩
    · rfl
  · rfl

theorem Call.fails_of_failed (h : c.failed queue s ≠ []) :
    ∃ id shard, c.request = .operate (.fail id shard) ∧ (c.run s).1 = .ok .done ∧
      s.IsHead queue shard id := by
  unfold Call.failed at h
  split at h
  · rename_i id shard hc
    split at h
    · rename_i hok
      split at h
      · rename_i hhead
        exact ⟨id, shard, hc, hok, hhead⟩
      · exact absurd rfl h
    · exact absurd rfl h
  · exact absurd rfl h

theorem Call.counts_complete (hs : s.Sound) {id : WorkItemId} {shard : Shard}
    (hc : c.request = .operate (.complete id shard)) (hok : (c.run s).1 = .ok .done)
    (hhead : s.IsHead queue shard id) : c.Counts queue s := by
  have hanswer : c.run s = (s.complete c.clock.storeNow id shard).map fun _ => .done :=
    Call.run_operate hc s
  rcases complete_cases hs c.clock.storeNow id shard with
    ⟨e, hrun⟩ | ⟨lane, item, row, before, s', hl, hfound, hrun, hmoves, -⟩
  · rw [hanswer, hrun] at hok
    cases hok
  · obtain ⟨rfl, hat, -⟩ := isHead_of_head hs hl hfound
    have hown : item.queueRef = queue := by
      have hitem : s.item? shard item.id = some item := by
        rw [item?_of_lane? hl]
        exact (Lane.head_eq_ok_iff.1 hfound).1
      rw [hat, (mem_of_lane? hl).2]
      exact (hs.head_name hhead hitem).2.symm
    obtain ⟨mid, hbefore, hlast⟩ := hmoves.split
    have hafter := (hlast.row? (hbefore.sound hs) queue).of_completed hown
    have hstate : (c.run s).2 = s' := by
      rw [hanswer, hrun]
      rfl
    rw [← hstate] at hafter
    refine .restarts (Or.inl ?_) fun tally hnew => (hafter tally hnew).2
    rw [hhead.2, head_of_tally?]
    intro hsame
    obtain ⟨tally, hnew, hfst⟩ := Option.map_eq_some_iff.1 hsame
    exact (hafter tally hnew).1 hfst

/-- A call that fails or delays the head of a queue changes the row of the queue. -/
theorem Call.row?_of_settleRow (hs : s.Sound) {id : WorkItemId} {shard : Shard} (change : RowChange)
    (hfits : ∀ row, change.Fits row)
    (hanswer : c.run s = (s.settleRow id shard (change.apply c.clock.storeNow)).map fun _ => .done)
    (hok : (c.run s).1 = .ok .done) (hhead : s.IsHead queue shard id) :
    (c.run s).2.row? queue = (s.row? queue).map (change.apply c.clock.storeNow) := by
  obtain ⟨_, hsettled, -⟩ := Answer.map_eq_ok_iff.1 (hanswer.symm.trans (Prod.ext hok rfl))
  rw [hanswer, Answer.map_snd]
  exact settleRow_row? hs hfits hhead (congrArg Prod.fst hsettled)

theorem Call.counts_fail (hs : s.Sound) {id : WorkItemId} {shard : Shard}
    (hc : c.request = .operate (.fail id shard)) (hok : (c.run s).1 = .ok .done)
    (hhead : s.IsHead queue shard id) : c.Counts queue s := by
  have hrow := Call.row?_of_settleRow hs .fail (fun _ => trivial)
    (Call.run_operate hc s) hok hhead
  obtain ⟨errors, htally⟩ := hhead.tally?
  refine .counts ?_ ?_ htally ?_
  · rintro (hhead' | ⟨id', shard', hdelay, -⟩ | hreset)
    · rw [hrow, Option.map_map] at hhead'
      exact hhead' rfl
    · rw [hc] at hdelay
      cases hdelay
    · rw [hc] at hreset
      cases hreset
  · unfold Call.failed
    rw [hc]
    dsimp only
    rw [hok]
    exact if_pos hhead
  · obtain ⟨row, hfound, htally'⟩ := Option.map_eq_some_iff.1 htally
    cases htally'
    rw [tally?_of_row? hrow, hfound]
    rfl

theorem Call.Counts.of_zeroed {f : Row → Row} (anew : c.Restarts queue s)
    (hrow : (c.run s).2.row? queue = (s.row? queue).map f)
    (hzero : ∀ row, (f row).errorCount = 0) : c.Counts queue s := by
  refine .restarts anew ?_
  intro tally htally
  rw [tally?_of_row? hrow, Option.map_map] at htally
  obtain ⟨row, -, rfl⟩ := Option.map_eq_some_iff.1 htally
  exact hzero row

theorem Call.counts_delay (hs : s.Sound) {id : WorkItemId} {shard : Shard}
    (hc : c.request = .operate (.delay id shard)) (hok : (c.run s).1 = .ok .done)
    (hhead : s.IsHead queue shard id) : c.Counts queue s := by
  have hrow := Call.row?_of_settleRow hs .delay (fun _ => trivial)
    (Call.run_operate hc s) hok hhead
  exact .of_zeroed (Or.inr (Or.inl ⟨id, shard, hc, hok, hhead⟩)) hrow fun _ => rfl

theorem Call.counts_reset (hs : s.Sound) (hc : c.request = .operate (.reset queue)) :
    c.Counts queue s := by
  have hanswer : c.run s = (s.reset c.clock.storeNow queue).map fun _ => .done :=
    Call.run_operate hc s
  have hrow : (c.run s).2.row? queue =
      (s.row? queue).map (RowChange.reset.apply c.clock.storeNow) := by
    rw [hanswer, Answer.map_snd]
    exact reset_row? hs _ queue
  exact .of_zeroed (Or.inr (Or.inr hc)) hrow fun _ => rfl

theorem Call.counts_clear (hc : c.request = .operate .clear) : c.Counts queue s := by
  have hrow : (c.run s).2.row? queue = none := by
    rw [Call.run_operate hc]
    exact row?_clear s queue
  have hgone : ∀ tally, (c.run s).2.tally? queue = some tally → tally.2 = 0 := by
    intro tally htally
    rw [tally?_of_row? hrow] at htally
    cases htally
  by_cases hnew : c.Restarts queue s
  · exact .restarts hnew hgone
  · have hbefore : s.row? queue = none := by
      cases hrow' : s.row? queue with
      | none => rfl
      | some row =>
        refine absurd (Or.inl ?_) hnew
        rw [hrow, hrow']
        exact (Option.some_ne_none row.head).symm
    refine .keeps hnew ?_ ?_
    · unfold Call.failed
      rw [hc]
    · rw [tally?_of_row? hrow, tally?_of_row? hbefore]

/-- No call makes anything else of the count of a queue. -/
theorem Call.counts (hs : s.Sound) (hsharding : s.sharding = sharding) (c : Call sharding)
    (queue : QueueRef) : c.Counts queue s := by
  by_cases hfrees : c.Frees queue s
  · have hcase := hfrees
    unfold Call.Frees at hcase
    split at hcase
    · rename_i hc
      exact Call.counts_complete hs hc hcase.1 hcase.2
    · rename_i hc
      exact Call.counts_fail hs hc hcase.1 hcase.2
    · rename_i hc
      exact Call.counts_delay hs hc hcase.1 hcase.2
    · rename_i hc
      exact Call.counts_reset hs (hcase ▸ hc)
    · rename_i hc
      exact Call.counts_clear hc
    · exact hcase.elim
  · obtain ⟨events, hmoves, haccounts⟩ := c.traced hs hsharding
    have hstays : Stays (s.tally? queue) ((c.run s).2.tally? queue) :=
      hmoves.stays hs fun event he h => hfrees (haccounts.frees queue event he h)
    rcases hstays with hsame | ⟨hnone, head, hnew⟩
    · refine .keeps ?_ (Call.failed_eq_nil hfrees) hsame
      rintro (hhead | ⟨id, shard, hc, hok, hhead⟩ | hc)
      · rw [head_of_tally?, head_of_tally?, hsame] at hhead
        exact hhead rfl
      · refine hfrees ?_
        unfold Call.Frees
        rw [hc]
        exact ⟨hok, hhead⟩
      · refine hfrees ?_
        unfold Call.Frees
        rw [hc]
    · refine .restarts (Or.inl ?_) ?_
      · rw [head_of_tally?, head_of_tally?, hnone, hnew]
        exact Option.some_ne_none head
      · intro tally htally
        rw [hnew] at htally
        cases htally
        rfl

end Counts

/-! ### Counts over a history -/

theorem told_concat {α : Type} (tell : Call sharding → Store → List α) (s : Store)
    (calls : List (Call sharding)) (c : Call sharding) :
    told tell s (calls ++ [c]) = told tell s calls ++ tell c (s.after calls) := by
  induction calls generalizing s with
  | nil => exact List.append_nil _
  | cons first rest ih =>
    show tell first s ++ told tell (first.run s).2 (rest ++ [c]) = _
    rw [ih, ← List.append_assoc]
    rfl

theorem countsOn_concat {calls : List (Call sharding)} {c : Call sharding} :
    CountsOn queue s (calls ++ [c]) ↔ CountsOn queue s calls ∧ ¬ c.Restarts queue (s.after calls) := by
  induction calls generalizing s with
  | nil => simp [CountsOn, after]
  | cons first rest ih =>
    show _ ∧ CountsOn queue (first.run s).2 (rest ++ [c]) ↔ _
    rw [ih, ← and_assoc]
    rfl

/-- As long as it is not begun anew, the count of a queue goes up by the failures of its head. -/
theorem tally_after {calls : List (Call sharding)} (hs : s.Sound) (hsharding : s.sharding = sharding)
    (hon : CountsOn queue s calls) {head : WorkItemId} {errors : Nat}
    (h : s.tally? queue = some (head, errors)) :
    (s.after calls).tally? queue =
      some (head, errors + (told (Call.failed queue) s calls).length) := by
  induction calls generalizing s errors with
  | nil => exact h
  | cons c rest ih =>
    obtain ⟨hs', hsharding'⟩ := c.run_sound hs hsharding
    show ((c.run s).2.after rest).tally? queue =
      some (head, errors + (c.failed queue s ++ told _ (c.run s).2 rest).length)
    cases c.counts hs hsharding queue with
    | keeps on unfailed same =>
      rw [unfailed, ih hs' hsharding' hon.2 (same.trans h)]
      rfl
    | counts on failed before after =>
      rw [h] at before
      cases before
      rw [failed, ih hs' hsharding' hon.2 after, List.length_append, List.length_singleton]
      congr 2
      omega
    | restarts anew after => exact absurd anew hon.1

/-- The count of a queue was begun by one of the calls, and is the number of failures since. -/
theorem counted_since (calls : List (Call sharding)) {tally : WorkItemId × Nat}
    (h : (reached calls).tally? queue = some tally) :
    ∃ before c since, calls = before ++ c :: since ∧ c.Restarts queue (reached before) ∧
      CountsOn queue (c.run (reached before)).2 since ∧
      tally.2 = (told (Call.failed queue) (c.run (reached before)).2 since).length := by
  induction calls using List.reverseRecOn generalizing tally with
  | nil =>
    obtain ⟨row, hrow, -⟩ := Option.map_eq_some_iff.1 h
    rw [show reached ([] : List (Call sharding)) = empty sharding from rfl, row?_empty] at hrow
    cases hrow
  | append_singleton calls c ih =>
    obtain ⟨hs, hsharding⟩ := reached_sound calls
    have hlast : reached (calls ++ [c]) = (c.run (reached calls)).2 := reached_append calls [c]
    rw [hlast] at h
    -- a count that the last call does not begin anew was begun earlier
    have hlonger : ∀ {earlier : WorkItemId × Nat}, ¬ c.Restarts queue (reached calls) →
        (reached calls).tally? queue = some earlier →
        tally.2 = earlier.2 + (c.failed queue (reached calls)).length →
        ∃ before first since, calls ++ [c] = before ++ first :: since ∧
          first.Restarts queue (reached before) ∧
          CountsOn queue (first.run (reached before)).2 since ∧
          tally.2 = (told (Call.failed queue) (first.run (reached before)).2 since).length := by
      intro earlier hon hearlier hcount
      obtain ⟨before, first, since, rfl, hfirst, hsince, herrors⟩ := ih hearlier
      have hstate : (first.run (reached before)).2.after since = reached (before ++ first :: since) :=
        (reached_append before (first :: since)).symm
      refine ⟨before, first, since ++ [c], ?_, hfirst, ?_, ?_⟩
      · rw [List.append_assoc, List.cons_append]
      · rw [countsOn_concat, hstate]
        exact ⟨hsince, hon⟩
      · rw [told_concat, hstate, List.length_append, ← herrors, hcount]
    cases c.counts hs hsharding queue with
    | keeps on unfailed same =>
      refine hlonger on (same.symm.trans h) ?_
      rw [unfailed]
      rfl
    | counts on failed before after =>
      rw [h] at after
      cases after
      refine hlonger on before ?_
      rw [failed]
      rfl
    | restarts anew after => exact ⟨calls, c, [], rfl, anew, trivial, after tally h⟩

/-! ### Queues that are not claimed -/

/-- A queue with too many errors is not claimed. -/
theorem not_claimed_of_tripped (hs : s.Sound) {tally : WorkItemId × Nat}
    (h : s.tally? queue = some tally) (htripped : greatestErrorCount ≤ tally.2) {shard : Shard}
    {item : WorkItem} (hnext : (s.next now shard).1 = .ok (some item)) : item.queueRef ≠ queue := by
  rintro rfl
  obtain ⟨row, hrow, rfl⟩ := Option.map_eq_some_iff.1 h
  obtain ⟨lane, taken, hl, htaken, -, huntripped, -⟩ := claimable_of_next hs hnext
  have hours : lane.row? item.queueName = some row := by
    rw [← hrow]
    exact (row?_of_lane? hl item.queueName).symm
  rcases lane.row?_poll_cases item.queueName with hsame | ⟨hnone, -⟩
  · rw [hsame, hours] at htaken
    cases htaken
    exact Nat.not_lt.2 htripped huntripped
  · rw [hours] at hnone
    cases hnone

/-- Whether a call settles the head of a queue or resets the queue. -/
def Call.Settles (queue : QueueRef) (c : Call sharding) (s : Store) : Prop :=
  c.Frees queue s ∧ c.request ≠ .operate .clear

/-- Whether the row of a queue is there throughout a history that neither settles its head nor resets
    the queue. -/
def Unsettled (queue : QueueRef) (s : Store) : List (Call sharding) → Prop
  | [] => True
  | c :: calls =>
    ¬ c.Settles queue s ∧ ((c.run s).2.row? queue).isSome = true ∧
      Unsettled queue (c.run s).2 calls

theorem Unsettled.keepsLease {calls : List (Call sharding)} (h : Unsettled queue s calls) :
    KeepsLease queue s calls := by
  induction calls generalizing s with
  | nil => trivial
  | cons c rest ih =>
    obtain ⟨hunsettled, hrow, hrest⟩ := h
    refine ⟨fun hfrees => hunsettled ⟨hfrees, fun hc => ?_⟩, ih hrest⟩
    have hgone : (c.run s).2.row? queue = none := by
      rw [Call.run_operate hc]
      exact row?_clear s queue
    rw [hgone] at hrow
    cases hrow

/-- A failure backs off the queue. -/
theorem leases_of_failed (hs : s.Sound) {c : Call sharding} (hfailed : c.failed queue s ≠ []) :
    ∃ item, item.queueRef = queue ∧
      (c.run s).2.Leases item (c.clock.storeNow + failureBackoff) := by
  obtain ⟨id, shard, hc, hok, hhead⟩ := Call.fails_of_failed hfailed
  have hanswer : c.run s = (s.settleRow id shard (RowChange.fail.apply c.clock.storeNow)).map
    fun _ => .done := Call.run_operate hc s
  rcases settleRow_cases s id shard (RowChange.fail.apply c.clock.storeNow) with
    ⟨e, hrun⟩ | ⟨lane, item, row, hl, hfound, hrun⟩
  · rw [hanswer, hrun] at hok
    cases hok
  · obtain ⟨hitem, hrow, hid⟩ := Lane.head_eq_ok_iff.1 hfound
    obtain ⟨hitemId, hown, -⟩ := isHead_of_head hs hl hfound
    obtain ⟨hmem, rfl⟩ := mem_of_lane? hl
    have hqueue : queue = ⟨item.queueName, lane.shard⟩ :=
      (hs.head_name hhead ((item?_of_lane? hl id).trans hitem)).2
    have hat : item.shard = lane.shard := congrArg QueueRef.shard hown
    refine ⟨item, hown.trans hqueue.symm,
      lane.updateRow item.queueName (RowChange.fail.apply c.clock.storeNow), ?_,
      RowChange.fail.apply c.clock.storeNow row, item, ?_, hid.trans hitemId.symm, Int.le_refl _,
      (Lane.mem_of_item? hitem).1, .refl item⟩
    · rw [hanswer, hrun, hat]
      exact lane?_setLane_self hl rfl
    · rw [Lane.row?_updateRow _ _ _ _ (RowChange.name_apply _ _), if_pos rfl, hrow]
      rfl

/-! ### The health of a store -/

/-- The queues that have reached the greatest error count. -/
def tripped (s : Store) : List QueueRef :=
  s.lanes.flatMap fun lane =>
    (lane.rows.filter fun row => greatestErrorCount ≤ row.errorCount).map fun row =>
      ⟨row.name, lane.shard⟩

theorem Sound.mem_tripped (hs : s.Sound) :
    queue ∈ s.tripped ↔ ∃ row, s.row? queue = some row ∧ greatestErrorCount ≤ row.errorCount := by
  unfold tripped
  simp only [List.mem_flatMap, List.mem_map, List.mem_filter, decide_eq_true_eq]
  constructor
  · rintro ⟨lane, hl, row, ⟨hr, hcount⟩, rfl⟩
    refine ⟨row, ?_, hcount⟩
    rw [row?_of_lane? (hs.lane?_of_mem hl)]
    exact (hs.lanes lane hl).row?_of_mem hr
  · rintro ⟨row, hrow, hcount⟩
    obtain ⟨lane, hl, hfound⟩ := Option.bind_eq_some_iff.1 hrow
    obtain ⟨hmem, hshard⟩ := mem_of_lane? hl
    obtain ⟨hr, hname⟩ := Lane.mem_of_row? hfound
    exact ⟨lane, hmem, row, ⟨hr, hcount⟩, by rw [hname, hshard]⟩

theorem Sound.nodup_tripped (hs : s.Sound) : s.tripped.Nodup := by
  unfold tripped
  refine List.nodup_flatMap.2 ⟨fun lane hl => ?_, ?_⟩
  · apply List.Nodup.of_map QueueRef.name
    rw [List.map_map]
    exact (hs.lanes lane hl).names.sublist (List.filter_sublist.map _)
  · refine (List.pairwise_map.1 hs.nodup).imp fun {a b} hne => ?_
    intro queue ha hb
    obtain ⟨row, -, rfl⟩ := List.mem_map.1 ha
    obtain ⟨other, -, hsame⟩ := List.mem_map.1 hb
    exact hne (congrArg QueueRef.shard hsame).symm

theorem health_eq (s : Store) :
    s.health = { healthy := s.tripped.isEmpty, unhealthyQueues := s.tripped.length } := by
  have hlength : ((s.lanes.map Lane.unhealthyCount).foldr (· + ·) 0 : Nat) = s.tripped.length := by
    unfold tripped
    rw [List.length_flatMap]
    simp only [List.length_map]
    rfl
  unfold health
  rw [hlength]
  cases s.tripped <;> simp [QueueHealth.ofUnhealthyCount]
  omega

/-- In every reachable store the errors of a queue are the failures of its head since the row was
    made, got another head, had its head delayed or was reset.  Once there are too many, the queue is
    not claimed until one of these happens.  A queue that is failed is not claimed before its backoff
    is over, as long as its head is not settled and the queue not reset.  And the health of the store
    is the number of queues with too many errors. -/
theorem errors_are_counted (calls : List (Call sharding)) :
    (∀ queue row, (reached calls).row? queue = some row →
      ∃ before c since, calls = before ++ c :: since ∧ c.Restarts queue (reached before) ∧
        CountsOn queue (c.run (reached before)).2 since ∧
        row.errorCount = (told (Call.failed queue) (c.run (reached before)).2 since).length) ∧
    (∀ queue row, (reached calls).row? queue = some row → greatestErrorCount ≤ row.errorCount →
      ∀ later : List (Call sharding), CountsOn queue (reached calls) later →
        ∀ now shard item, (((reached calls).after later).next now shard).1 = .ok (some item) →
          item.queueRef ≠ queue) ∧
    (∀ queue, ∀ c : Call sharding, c.failed queue (reached calls) ≠ [] →
      ∀ later : List (Call sharding), Unsettled queue (c.run (reached calls)).2 later →
        ∀ now shard item, (((c.run (reached calls)).2.after later).next now shard).1 =
            .ok (some item) →
          now ≤ c.clock.storeNow + failureBackoff → item.queueRef ≠ queue) ∧
    ∃ tripped : List QueueRef, tripped.Nodup ∧
      (∀ queue, queue ∈ tripped ↔
        ∃ row, (reached calls).row? queue = some row ∧ greatestErrorCount ≤ row.errorCount) ∧
      (reached calls).health =
        { healthy := tripped.isEmpty, unhealthyQueues := tripped.length } := by
  obtain ⟨hs, hsharding⟩ := reached_sound calls
  have htally : ∀ {queue row}, (reached calls).row? queue = some row →
      (reached calls).tally? queue = some row.tally :=
    fun hrow => tally?_of_row? hrow
  have hafter : ∀ {s : Store} (later : List (Call sharding)), s.Sound → s.sharding = sharding →
      (s.after later).Sound := fun later hs hsharding =>
    after_keeps (P := Store.Sound) (fun hs move _ => move.sound hs) hs hsharding hs later
  refine ⟨?_, ?_, ?_, (reached calls).tripped, hs.nodup_tripped, fun queue => hs.mem_tripped,
    health_eq _⟩
  · intro queue row hrow
    exact counted_since calls (htally hrow)
  · intro queue row hrow htripped later hon now shard item hnext
    refine not_claimed_of_tripped (hafter later hs hsharding)
      (tally_after hs hsharding hon (htally hrow)) ?_ hnext
    exact Nat.le_trans htripped (Nat.le_add_right _ _)
  · intro queue c hfailed later hunsettled now shard item hnext hbefore hqueue
    obtain ⟨hs', hsharding'⟩ := c.run_sound hs hsharding
    obtain ⟨head, rfl, hleases⟩ := leases_of_failed hs hfailed
    have hlease := leases_after hs' hsharding' hunsettled.keepsLease hleases
    have hlate := (hlease.next (hafter later hs' hsharding') hnext hqueue).1
    exact Int.not_le.2 hlate hbefore

def flaky : QueueRef := ⟨"flaky", ⟨0, 1⟩⟩

/-- An item of the queue is filed and claimed. -/
def flakyClaimed : List (Call .single) :=
  [⟨{ origin := ⟨10⟩ }, .operate (.enqueue "" { url := "http://a/1", queue := some "flaky" })⟩,
   ⟨{ origin := ⟨11⟩ }, .operate (.next flaky.shard)⟩]

def flakyFailure : Call .single := ⟨{ origin := ⟨12⟩ }, .operate (.fail 1 flaky.shard)⟩

def flakyPoll : Call .single := ⟨{ origin := ⟨13⟩ }, .operate (.next flaky.shard)⟩

/-- After one failure the queue is left alone for five minutes, whether it is polled or not.  After
    five failures it is left alone at all times, and the store is unhealthy. -/
theorem failures_keep_a_queue_back :
    (∀ now item,
      (((flakyFailure.run (reached flakyClaimed)).2.after [flakyPoll]).next now flaky.shard).1 =
        .ok (some item) → now ≤ ⟨300000000012⟩ → item.queueRef ≠ flaky) ∧
    (∀ now item,
      ((reached (flakyClaimed ++ List.replicate 5 flakyFailure)).next now flaky.shard).1 =
        .ok (some item) → item.queueRef ≠ flaky) ∧
    (reached (flakyClaimed ++ List.replicate 5 flakyFailure)).health =
      { healthy := false, unhealthyQueues := 1 } := by
  obtain ⟨-, -, hbackoff, -⟩ := errors_are_counted flakyClaimed
  obtain ⟨-, htripped, -⟩ := errors_are_counted (flakyClaimed ++ List.replicate 5 flakyFailure)
  refine ⟨fun now item hnext hnow => ?_, fun now item hnext => ?_, by decide +kernel⟩
  · have hunsettled : Unsettled flaky (flakyFailure.run (reached flakyClaimed)).2 [flakyPoll] :=
      ⟨fun h => h.1, by decide +kernel, trivial⟩
    exact hbackoff flaky flakyFailure (by decide +kernel) [flakyPoll] hunsettled now flaky.shard item
      hnext hnow
  · have hfive : ((reached (flakyClaimed ++ List.replicate 5 flakyFailure)).row? flaky).map
        (·.errorCount) = some 5 := by decide +kernel
    obtain ⟨row, hrow, hcount⟩ := Option.map_eq_some_iff.1 hfive
    have hback := htripped flaky row hrow (Nat.le_of_eq hcount.symm) [] trivial
    rw [show ∀ s : Store, s.after ([] : List (Call .single)) = s from fun _ => rfl] at hback
    exact hback now flaky.shard item hnext

end Store

end Courier
