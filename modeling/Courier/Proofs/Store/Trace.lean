/-
  Courier/Proofs/Store/Trace.lean
  ===============================
  **What a call does, move by move.**

  Every call of a sound store is a chain of moves (`Store.Call.traced`), and its
  events agree with what is told of the call: the numbers it filed items under, the
  item it completed, and the queues whose lease it gave up.  A property that every
  move keeps is therefore kept by every history (`Store.after_keeps`); reachable
  stores are sound (`Store.reached_sound`).
-/
import Courier.Proofs.Store.Completion

namespace Courier

open Courier.Time

theorem Answer.map_snd {σ α β : Type} (f : α → β) (answer : Answer σ α) :
    (answer.map f).2 = answer.2 := by
  obtain ⟨result, s⟩ := answer
  cases result <;> rfl

theorem Answer.map_eq_ok_iff {σ α β : Type} {f : α → β} {answer : Answer σ α} {b : β} {s : σ} :
    answer.map f = (.ok b, s) ↔ ∃ a, answer = (.ok a, s) ∧ f a = b := by
  obtain ⟨result, t⟩ := answer
  cases result with
  | error e => simp [Answer.map]
  | ok a =>
    constructor
    · rintro ⟨⟩
      exact ⟨a, rfl, rfl⟩
    · rintro ⟨_, ⟨⟩, rfl⟩
      rfl

namespace Store

variable {sharding : Sharding} {s : Store} {now : Instant}

/-! ### Calls -/

/-- Whether a call is one of those of which an event can come: a lock is taken back only by
    unlocking, completed items are removed only by a purge, and jobs are recorded only by a
    transaction. -/
def Call.Explains (c : Call sharding) : Event → Prop
  | .released item =>
    ∃ lock, item.lockWhenComplete = some lock ∧ c.request = .operate (.unlock item.queueRef lock)
  | .purged shard => c.request = .operate (.purge shard)
  | .recorded => ∃ tx isOpen, c.request = .commit tx isOpen
  | _ => True

/-- Whether the events of a call agree with what is told of it. -/
structure Call.Accounts (c : Call sharding) (s : Store) (events : List Event) : Prop where
  filed : ∀ queue, events.flatMap (·.filedIn queue) = c.filed queue s
  completed : events.flatMap (·.retired) = c.completed s
  frees : ∀ queue, ∀ event ∈ events, event.Frees queue → c.Frees queue s
  clears : .cleared ∈ events → c.request = .operate .clear
  explained : ∀ event ∈ events, c.Explains event

theorem Call.explains_of_idle (c : Call sharding) {event : Event} (h : event.Idle) :
    c.Explains event := by
  cases event with
  | released item => exact h.elim
  | purged shard => exact h.elim
  | recorded => exact h.elim
  | _ => trivial

theorem flatMap_silent {events : List Event} (h : ∀ event ∈ events, event.Silent)
    (queue : QueueRef) :
    events.flatMap (·.filedIn queue) = [] ∧ events.flatMap (·.retired) = [] :=
  ⟨List.flatMap_eq_nil_iff.2 fun event he => ((h event he).tells_nothing queue).1,
    List.flatMap_eq_nil_iff.2 fun event he => ((h event he).tells_nothing queue).2.1⟩

/-- Silent events account for a call of which nothing has to be told. -/
theorem Call.accounts_silent {c : Call sharding} {events : List Event}
    (hsilent : ∀ event ∈ events, event.Silent) (hexplained : ∀ event ∈ events, c.Explains event)
    (hfiled : ∀ queue, c.filed queue s = []) (hcompleted : c.completed s = []) :
    c.Accounts s events := by
  constructor
  case filed => exact fun queue => (flatMap_silent hsilent queue).1.trans (hfiled queue).symm
  case completed => exact (flatMap_silent hsilent default).2.trans hcompleted.symm
  case frees =>
    intro queue event he hfrees
    exact absurd hfrees ((hsilent event he).tells_nothing queue).2.2.1
  case clears =>
    intro he
    exact absurd rfl ((hsilent _ he).tells_nothing default).2.2.2
  case explained => exact hexplained

/-- A call that only idles is a chain of moves of which nothing has to be told. -/
theorem Call.traced_of_idles {c : Call sharding} (h : Idles c.clock.storeNow s (c.run s).2)
    (hfiled : ∀ queue, c.filed queue s = []) (hcompleted : c.completed s = []) :
    ∃ events, Moves c.clock.storeNow s events (c.run s).2 ∧ c.Accounts s events := by
  obtain ⟨events, hmoves, hidle⟩ := h
  exact ⟨events, hmoves, Call.accounts_silent (fun event he => (hidle event he).silent)
    (fun event he => c.explains_of_idle (hidle event he)) hfiled hcompleted⟩

/-- A call that is one silent move of its own kind. -/
theorem Call.traced_of_move {c : Call sharding} {event : Event}
    (h : Move c.clock.storeNow s event (c.run s).2) (hsilent : event.Silent)
    (hexplained : c.Explains event) (hfiled : ∀ queue, c.filed queue s = [])
    (hcompleted : c.completed s = []) :
    ∃ events, Moves c.clock.storeNow s events (c.run s).2 ∧ c.Accounts s events := by
  refine ⟨[event], .single h, Call.accounts_silent ?_ ?_ hfiled hcompleted⟩
  · intro other ho
    exact List.mem_singleton.1 ho ▸ hsilent
  · intro other ho
    exact List.mem_singleton.1 ho ▸ hexplained

theorem Call.accounts_changed {c : Call sharding} {target : QueueRef} {change : RowChange}
    (hfiled : ∀ queue, c.filed queue s = []) (hcompleted : c.completed s = [])
    (hfrees : ∀ queue, (Event.changed target change).Frees queue → c.Frees queue s) :
    c.Accounts s [.changed target change] where
  filed := fun queue => (hfiled queue).symm
  completed := hcompleted.symm
  frees := fun queue event he hf => hfrees queue (List.mem_singleton.1 he ▸ hf)
  clears := fun he => by cases List.mem_singleton.1 he
  explained := fun event he => by rw [List.mem_singleton.1 he]; trivial

theorem eq_filed_of_mem {result : EnqueueResult} {event : Event}
    (h : event ∈ filingEvents result) : ∃ id queue, event = .filed id queue := by
  cases result with
  | created id queue => exact ⟨id, queue, List.mem_singleton.1 h⟩
  | duplicate existing queue => cases h

theorem flatMap_retired_filingEvents (results : List EnqueueResult) :
    (results.flatMap filingEvents).flatMap (·.retired) = [] := by
  refine List.flatMap_eq_nil_iff.2 ?_
  intro event he
  obtain ⟨result, -, he⟩ := List.mem_flatMap.1 he
  obtain ⟨id, queue, rfl⟩ := eq_filed_of_mem he
  rfl

theorem flatMap_filedIn_filingEvents (queue : QueueRef) (results : List EnqueueResult) :
    (results.flatMap filingEvents).flatMap (·.filedIn queue) =
      results.flatMap (filedIn queue) := by
  induction results with
  | nil => rfl
  | cons result rest ih =>
    rw [List.flatMap_cons, List.flatMap_append, ih, filedIn_filingEvents, List.flatMap_cons]

/-- Filing results account for themselves, whatever silent events come after. -/
theorem Call.accounts_filed {c : Call sharding} {results : List EnqueueResult}
    {after : List Event} (hsilent : ∀ event ∈ after, event.Silent)
    (hexplained : ∀ event ∈ after, c.Explains event)
    (hfiled : ∀ queue, c.filed queue s = results.flatMap (filedIn queue))
    (hcompleted : c.completed s = []) :
    c.Accounts s (results.flatMap filingEvents ++ after) := by
  have hcases : ∀ event ∈ results.flatMap filingEvents ++ after,
      (∃ id queue, event = .filed id queue) ∨ event ∈ after := by
    intro event he
    rcases List.mem_append.1 he with he | he
    · obtain ⟨result, -, he⟩ := List.mem_flatMap.1 he
      exact Or.inl (eq_filed_of_mem he)
    · exact Or.inr he
  constructor
  case filed =>
    intro queue
    rw [List.flatMap_append, flatMap_filedIn_filingEvents, (flatMap_silent hsilent queue).1,
      List.append_nil, hfiled]
  case completed =>
    rw [List.flatMap_append, flatMap_retired_filingEvents, (flatMap_silent hsilent default).2,
      hcompleted]
    rfl
  case frees =>
    intro queue event he hfrees
    rcases hcases event he with ⟨number, target, rfl⟩ | ha
    · exact absurd hfrees not_false
    · exact absurd hfrees ((hsilent event ha).tells_nothing queue).2.2.1
  case clears =>
    intro he
    rcases hcases _ he with ⟨number, target, h⟩ | ha
    · cases h
    · exact absurd rfl ((hsilent _ ha).tells_nothing default).2.2.2
  case explained =>
    intro event he
    rcases hcases event he with ⟨number, target, rfl⟩ | ha
    · trivial
    · exact hexplained event ha

theorem Call.run_operate {c : Call sharding} {operation : Operation}
    (hc : c.request = .operate operation) (s : Store) : c.run s = operation.run c.clock s := by
  unfold Call.run
  rw [hc]

theorem Call.traced_enqueue {c : Call sharding} (hs : s.Sound) {freshName : String}
    {item : NewItem} (hc : c.request = .operate (.enqueue freshName item)) :
    ∃ events, Moves c.clock.storeNow s events (c.run s).2 ∧ c.Accounts s events := by
  have hanswer : c.run s = (s.enqueue c.clock.storeNow freshName item).map .enqueued :=
    Call.run_operate hc s
  have hcompleted : c.completed s = [] := by
    unfold Call.completed
    rw [hc]
  unfold enqueue at hanswer
  cases hprepare : item.prepare s.sharding freshName with
  | error e =>
    rw [hprepare] at hanswer
    refine Call.traced_of_idles ?_ ?_ hcompleted
    · rw [hanswer]
      exact .refl s
    · intro queue
      unfold Call.filed
      rw [hc]
      dsimp only
      rw [hanswer]
      rfl
  | ok p =>
    obtain ⟨result, s', hinsert, hmoves⟩ :=
      insert_moves hs ⟨freshName, item, hprepare⟩ c.clock.storeNow
    rw [hprepare] at hanswer
    dsimp only at hanswer
    rw [hinsert] at hanswer
    refine ⟨[result].flatMap filingEvents ++ [], ?_, Call.accounts_filed ?_ ?_ ?_ hcompleted⟩
    · rw [hanswer, List.flatMap_singleton, List.append_nil]
      exact hmoves
    · intro event he
      cases he
    · intro event he
      cases he
    · intro queue
      unfold Call.filed
      rw [hc]
      dsimp only
      rw [hanswer, List.flatMap_singleton]
      rfl

theorem Call.traced_commit {c : Call sharding} (hs : s.Sound) (hsharding : s.sharding = sharding)
    {tx : JobTransaction} {isOpen : tx.IsOpen sharding} (hc : c.request = .commit tx isOpen) :
    ∃ events, Moves c.clock.storeNow s events (c.run s).2 ∧ c.Accounts s events := by
  obtain ⟨s', hinsert, hmoves⟩ := insertAll_moves hs (hsharding ▸ isOpen.isFor) c.clock.storeNow
  have hrun : (c.run s).2 = s'.writeRecords tx.records := by
    unfold Call.run
    rw [hc]
    dsimp only
    rw [Answer.map_snd]
    unfold commit
    rw [hinsert]
  have hrecorded : ∀ event ∈ [Event.recorded], event.Silent ∧ c.Explains event := by
    intro event he
    rw [List.mem_singleton.1 he]
    exact ⟨trivial, tx, isOpen, hc⟩
  refine ⟨(s.insertResults c.clock.storeNow tx.items).flatMap filingEvents ++ [.recorded], ?_,
    Call.accounts_filed (fun event he => (hrecorded event he).1)
      (fun event he => (hrecorded event he).2) ?_ ?_⟩
  · rw [hrun]
    exact hmoves.append (.single (.record _))
  · intro queue
    unfold Call.filed
    rw [hc]
  · unfold Call.completed
    rw [hc]

theorem Call.traced_complete {c : Call sharding} (hs : s.Sound) {id : WorkItemId} {shard : Shard}
    (hc : c.request = .operate (.complete id shard)) :
    ∃ events, Moves c.clock.storeNow s events (c.run s).2 ∧ c.Accounts s events := by
  have hanswer : c.run s = (s.complete c.clock.storeNow id shard).map fun _ => .done :=
    Call.run_operate hc s
  have hfiled : ∀ queue, c.filed queue s = [] := by
    intro queue
    unfold Call.filed
    rw [hc]
  rcases complete_cases hs c.clock.storeNow id shard with
    ⟨e, hrun⟩ | ⟨lane, item, row, before, s', hl, hhead, hrun, hmoves, hidle⟩
  · rw [hrun] at hanswer
    refine Call.traced_of_idles ?_ hfiled ?_
    · rw [hanswer]
      exact .refl s
    · unfold Call.completed
      rw [hc]
      dsimp only
      rw [hanswer]
      rfl
  · rw [hrun] at hanswer
    have hsilent : ∀ event ∈ before, event.Silent := fun event he => (hidle event he).silent
    refine ⟨before ++ [.completed item], ?_, ?_⟩
    · rw [hanswer]
      exact hmoves
    constructor
    case filed =>
      intro queue
      rw [List.flatMap_append, (flatMap_silent hsilent queue).1, hfiled]
      rfl
    case completed =>
      have hfound : s.item? shard id = some item := by
        unfold item?
        rw [hl]
        exact (Lane.head_eq_ok_iff.1 hhead).1
      rw [List.flatMap_append, (flatMap_silent hsilent default).2]
      unfold Call.completed
      rw [hc]
      dsimp only
      rw [hanswer, hfound]
      rfl
    case frees =>
      intro queue event he hfrees
      rcases List.mem_append.1 he with he | he
      · exact absurd hfrees ((hsilent event he).tells_nothing queue).2.2.1
      · rw [List.mem_singleton.1 he] at hfrees
        unfold Call.Frees
        rw [hc]
        refine ⟨by rw [hanswer]; rfl, ?_⟩
        rw [← show item.queueRef = queue from hfrees]
        exact (isHead_of_head hs hl hhead).2.2
    case clears =>
      intro he
      rcases List.mem_append.1 he with he | he
      · exact absurd rfl ((hsilent _ he).tells_nothing default).2.2.2
      · cases List.mem_singleton.1 he
    case explained =>
      intro event he
      rcases List.mem_append.1 he with he | he
      · exact c.explains_of_idle (hidle event he)
      · rw [List.mem_singleton.1 he]
        trivial

/-- A call that settles an item without completing it changes the row of which it is the head. -/
theorem Call.traced_settleRow {c : Call sharding} (hs : s.Sound) {id : WorkItemId} {shard : Shard}
    (change : RowChange) (hfits : ∀ row, change.Fits row)
    (hanswer : c.run s = (s.settleRow id shard (change.apply c.clock.storeNow)).map fun _ => .done)
    (hfiled : ∀ queue, c.filed queue s = []) (hcompleted : c.completed s = [])
    (hfrees : ∀ queue, (c.run s).1 = .ok .done → s.IsHead queue shard id → c.Frees queue s)
    (hframe : ∀ target queue, (Event.changed target change).Frees queue → target = queue) :
    ∃ events, Moves c.clock.storeNow s events (c.run s).2 ∧ c.Accounts s events := by
  rcases settleRow_cases s id shard (change.apply c.clock.storeNow) with
    ⟨e, hrun⟩ | ⟨lane, item, row, hl, hhead, hrun⟩
  · rw [hrun] at hanswer
    refine Call.traced_of_idles ?_ hfiled hcompleted
    rw [hanswer]
    exact .refl s
  · rw [hrun] at hanswer
    obtain ⟨-, hqueue, hishead⟩ := isHead_of_head hs hl hhead
    refine ⟨[.changed ⟨item.queueName, lane.shard⟩ change], ?_,
      Call.accounts_changed hfiled hcompleted ?_⟩
    · rw [hanswer]
      exact .single (Move.updateRow (mem_of_lane? hl).1 fun row _ => hfits row)
    · intro queue hf
      refine hfrees queue ?_ ?_
      · rw [hanswer]
        rfl
      · rw [← hframe _ queue hf, ← hqueue]
        exact hishead

theorem Call.traced_reset {c : Call sharding} {queue : QueueRef}
    (hc : c.request = .operate (.reset queue)) (s : Store) :
    ∃ events, Moves c.clock.storeNow s events (c.run s).2 ∧ c.Accounts s events := by
  have hanswer : c.run s = (s.reset c.clock.storeNow queue).map fun _ => .done :=
    Call.run_operate hc s
  have hfiled : ∀ queue, c.filed queue s = [] := by
    intro queue
    unfold Call.filed
    rw [hc]
  have hcompleted : c.completed s = [] := by
    unfold Call.completed
    rw [hc]
  unfold reset withLane at hanswer
  cases hl : s.lane? queue.shard with
  | none =>
    rw [hl] at hanswer
    refine Call.traced_of_idles ?_ hfiled hcompleted
    rw [hanswer]
    exact .refl s
  | some lane =>
    rw [hl] at hanswer
    obtain ⟨hmem, hshard⟩ := mem_of_lane? hl
    have hmove : Move c.clock.storeNow s (.changed ⟨queue.name, lane.shard⟩ .reset) _ :=
      Move.updateRow hmem fun _ _ => trivial
    rw [hshard] at hmove
    refine ⟨[.changed queue .reset], ?_, Call.accounts_changed hfiled hcompleted ?_⟩
    · rw [hanswer]
      exact .single hmove
    · intro target hf
      unfold Call.Frees
      rw [hc]
      exact hf

theorem Call.traced_clear {c : Call sharding} (hc : c.request = .operate .clear) (s : Store) :
    ∃ events, Moves c.clock.storeNow s events (c.run s).2 ∧ c.Accounts s events := by
  have hanswer : c.run s = (.ok .done, s.clear) := Call.run_operate hc s
  refine ⟨[.cleared], ?_, ?_⟩
  · rw [hanswer]
    exact .single .clear
  constructor
  case filed =>
    intro queue
    unfold Call.filed
    rw [hc]
    rfl
  case completed =>
    unfold Call.completed
    rw [hc]
    rfl
  case frees =>
    intro queue event _ _
    unfold Call.Frees
    rw [hc]
    trivial
  case clears => exact fun _ => hc
  case explained =>
    intro event he
    rw [List.mem_singleton.1 he]
    trivial

theorem Call.traced_unlock {c : Call sharding} (hs : s.Sound) {queue : QueueRef} {lockId : String}
    (hc : c.request = .operate (.unlock queue lockId)) (hfiled : ∀ queue, c.filed queue s = [])
    (hcompleted : c.completed s = []) :
    ∃ events, Moves c.clock.storeNow s events (c.run s).2 ∧ c.Accounts s events := by
  have hstate : (c.run s).2 = (s.unlock queue lockId).2 := by
    rw [Call.run_operate hc s]
    exact Answer.map_snd _ _
  rcases unlock_cases hs c.clock.storeNow queue lockId with hidles | ⟨item, hqueue, hlock, hmove⟩
  · exact Call.traced_of_idles (hstate ▸ hidles) hfiled hcompleted
  · rw [← hstate] at hmove
    refine Call.traced_of_move hmove trivial ⟨lockId, hlock, ?_⟩ hfiled hcompleted
    rw [hqueue]
    exact hc

theorem Call.traced_purge {c : Call sharding} {shard : Shard}
    (hc : c.request = .operate (.purge shard)) (s : Store) (hfiled : ∀ queue, c.filed queue s = [])
    (hcompleted : c.completed s = []) :
    ∃ events, Moves c.clock.storeNow s events (c.run s).2 ∧ c.Accounts s events := by
  have hstate : (c.run s).2 = (s.purge c.clock.storeNow shard).2 := by
    rw [Call.run_operate hc s]
    exact Answer.map_snd _ _
  rcases purge_cases c.clock.storeNow shard s with hsame | hmove
  · refine Call.traced_of_idles ?_ hfiled hcompleted
    rw [hstate, hsame]
    exact .refl s
  · rw [← hstate] at hmove
    exact Call.traced_of_move hmove trivial hc hfiled hcompleted

/-- Every call of a sound store is a chain of moves that agrees with what is told of it. -/
theorem Call.traced (c : Call sharding) (hs : s.Sound) (hsharding : s.sharding = sharding) :
    ∃ events, Moves c.clock.storeNow s events (c.run s).2 ∧ c.Accounts s events := by
  -- the operations that only idle differ in nothing but the lemma that says so
  have hidle : ∀ {operation : Operation}, c.request = .operate operation →
      Idles c.clock.storeNow s (operation.run c.clock s).2 →
      (∀ queue, c.filed queue s = []) → c.completed s = [] →
      ∃ events, Moves c.clock.storeNow s events (c.run s).2 ∧ c.Accounts s events := by
    intro operation hc hidles hfiled hcompleted
    rw [← Call.run_operate hc s] at hidles
    exact Call.traced_of_idles hidles hfiled hcompleted
  cases hc : c.request with
  | commit tx isOpen => exact Call.traced_commit hs hsharding hc
  | operate operation =>
    have hcompleted : (∀ id shard, operation ≠ .complete id shard) → c.completed s = [] := by
      intro hne
      unfold Call.completed
      rw [hc]
      cases operation with
      | complete id shard => exact absurd rfl (hne id shard)
      | _ => rfl
    have hfiled : (∀ freshName item, operation ≠ .enqueue freshName item) →
        ∀ queue, c.filed queue s = [] := by
      intro hne queue
      unfold Call.filed
      rw [hc]
      cases operation with
      | enqueue freshName item => exact absurd rfl (hne freshName item)
      | _ => rfl
    cases operation with
    | enqueue freshName item => exact Call.traced_enqueue hs hc
    | next shard =>
      refine hidle hc ?_ (hfiled (by simp)) (hcompleted (by simp))
      exact (Answer.map_snd _ _).symm ▸ next_idles hs c.clock.storeNow shard
    | complete id shard => exact Call.traced_complete hs hc
    | fail id shard =>
      refine Call.traced_settleRow hs .fail (fun _ => trivial)
        (Call.run_operate hc s) (hfiled (by simp)) (hcompleted (by simp)) ?_ fun _ _ h => h
      intro queue hok hhead
      unfold Call.Frees
      rw [hc]
      exact ⟨hok, hhead⟩
    | delay id shard =>
      refine Call.traced_settleRow hs .delay (fun _ => trivial)
        (Call.run_operate hc s) (hfiled (by simp)) (hcompleted (by simp)) ?_ fun _ _ h => h
      intro queue hok hhead
      unfold Call.Frees
      rw [hc]
      exact ⟨hok, hhead⟩
    | purge shard => exact Call.traced_purge hc s (hfiled (by simp)) (hcompleted (by simp))
    | pause queue =>
      refine hidle hc ?_ (hfiled (by simp)) (hcompleted (by simp))
      exact (Answer.map_snd _ _).symm ▸ pause_idles c.clock.storeNow queue s
    | resume queue =>
      refine hidle hc ?_ (hfiled (by simp)) (hcompleted (by simp))
      exact (Answer.map_snd _ _).symm ▸ resume_idles c.clock.storeNow queue s
    | reset queue => exact Call.traced_reset hc s
    | lock queue lockId =>
      refine hidle hc ?_ (hfiled (by simp)) (hcompleted (by simp))
      exact (Answer.map_snd _ _).symm ▸ lock_idles c.clock.storeNow queue lockId s
    | unlock queue lockId =>
      exact Call.traced_unlock hs hc (hfiled (by simp)) (hcompleted (by simp))
    | clear => exact Call.traced_clear hc s

/-! ### Histories -/

theorem Moves.keeps {P : Store → Prop}
    (hmove : ∀ {s s' : Store} {event : Event}, s.Sound → Move now s event s' → P s → P s')
    {s' : Store} {events : List Event} (h : Moves now s events s') (hs : s.Sound) (hp : P s) :
    P s' := by
  induction h with
  | nil s => exact hp
  | cons move _ ih => exact ih (move.sound hs) (hmove hs move hp)

/-- A call leaves a sound store of the same deployment. -/
theorem Call.run_sound (c : Call sharding) (hs : s.Sound) (hsharding : s.sharding = sharding) :
    (c.run s).2.Sound ∧ (c.run s).2.sharding = sharding := by
  obtain ⟨events, hmoves, -⟩ := c.traced hs hsharding
  exact ⟨hmoves.sound hs, hmoves.sharding.trans hsharding⟩

/-- What the moves of a sound store at the instants of a history keep, the history keeps. -/
theorem after_keeps_of_clocks {P : Store → Prop} {calls : List (Call sharding)}
    (hmove : ∀ c ∈ calls, ∀ {s s' : Store} {event : Event}, s.Sound →
      Move c.clock.storeNow s event s' → P s → P s')
    (hs : s.Sound) (hsharding : s.sharding = sharding) (hp : P s) : P (s.after calls) := by
  induction calls generalizing s with
  | nil => exact hp
  | cons c rest ih =>
    obtain ⟨events, hmoves, -⟩ := c.traced hs hsharding
    obtain ⟨hs', hsharding'⟩ := c.run_sound hs hsharding
    exact ih (fun d hd => hmove d (List.mem_cons_of_mem _ hd)) hs' hsharding'
      (hmoves.keeps (hmove c List.mem_cons_self) hs hp)

/-- What every move of a sound store keeps, every history keeps. -/
theorem after_keeps {P : Store → Prop}
    (hmove : ∀ {now : Instant} {s s' : Store} {event : Event}, s.Sound → Move now s event s' →
      P s → P s') (hs : s.Sound) (hsharding : s.sharding = sharding) (hp : P s)
    (calls : List (Call sharding)) : P (s.after calls) :=
  after_keeps_of_clocks (fun _ _ => hmove) hs hsharding hp

/-- Every reachable store is sound. -/
theorem reached_sound (calls : List (Call sharding)) :
    (reached calls).Sound ∧ (reached calls).sharding = sharding :=
  after_keeps (P := fun s => s.Sound ∧ s.sharding = sharding)
    (fun hs move hp => ⟨move.sound hs, move.sharding.trans hp.2⟩) (.empty sharding) rfl
    ⟨.empty sharding, rfl⟩ calls

end Store

end Courier
