/-
  Courier/Proofs/Consumer/Crew.lean
  =================================
  **Consumers that are at work at once.**

  An execution takes three steps: an item is claimed, its request is replied to, and
  the item is settled.  The executions of any number of consumers, with clocks of
  their own, interleave with one another and with whatever else is asked of the store
  (`Crew.step`); a lease may end meanwhile and its item be claimed once more.  Steps
  that nothing comes between make an execution (`Worker.round_execute`).

  All that a crew asks of its store is one history of it (`Crew.store_step`), so
  whatever holds of every history holds here: an item is pending until it enters the
  record of completed items, and as it is not pending afterwards, it does not enter it
  again (`Crew.nodup_entries`).
-/
import Courier.Proofs.Consumer.Execution
import Courier.Proofs.Store.Archive

namespace Courier

open Courier.Time

/-! ### Workers -/

/-- How far an execution is. -/
inductive Stage where
  /-- None is under way; it is known how the last one ended. -/
  | resting (last : Option (Except Error Bool))
  /-- Nothing could be claimed. -/
  | idle
  | holding (item : WorkItem)
  /-- The request for the item was replied to, or none could be made. -/
  | dispatched (item : WorkItem) (outcome : Outcome)
deriving DecidableEq

/-- A consumer with the execution it is at. -/
structure Worker where
  consumer : Consumer
  config : DispatchConfig
  stage : Stage

namespace Worker

def claim (w : Worker) (clock : Clock) (d : Depot Store) : Worker × Depot Store :=
  match w.stage with
  | .resting _ =>
    match d.answer (w.consumer.claim clock) with
    | (.error e, d) => ({ w with stage := .resting (some (.error e)) }, d)
    | (.ok (some item), d) => ({ w with stage := .holding item }, d)
    | (.ok none, d) => ({ w with stage := .idle }, d)
  | _ => (w, d)

/-- The request for the item is sent and replied to; a placeholder is not requested. -/
def respond (w : Worker) (reply : Reply) (d : Depot Store) : Worker × Depot Store :=
  match w.stage with
  | .holding item =>
    if item.isPlaceholder then (w, d)
    else
      let dispatcher : Dispatcher := { config := w.config, network := fun _ _ => reply }
      let (outcome, d) := dispatcher.dispatch item d
      ({ w with stage := .dispatched item outcome }, d)
  | _ => (w, d)

def settle (w : Worker) (clock : Clock) (d : Depot Store) : Worker × Depot Store :=
  match w.stage with
  | .resting _ => (w, d)
  | .idle =>
    let (answer, consumer, store) := w.consumer.purge clock d.store
    ({ w with consumer, stage := .resting (some (answer.map fun _ => false)) }, { d with store })
  | .holding item =>
    if item.isPlaceholder then
      let (answer, d) := d.answer fun s =>
        (Backend.complete clock item.id w.consumer.shard s).map fun _ => true
      ({ w with stage := .resting (some answer) }, d)
    else (w, d)
  | .dispatched item outcome =>
    let (answer, d) := d.answer (w.consumer.settle clock item.id outcome)
    ({ w with stage := .resting (some answer) }, d)

/-- The three steps with nothing between them but time. -/
def round (w : Worker) (reply : Reply) (clock later : Clock) (d : Depot Store) :
    Worker × Depot Store :=
  let claimed := w.claim clock d
  let replied := claimed.1.respond reply claimed.2
  replied.1.settle later replied.2

/-- The three steps, if nothing comes between them and no time passes, are an execution. -/
theorem round_execute {w : Worker} {last : Option (Except Error Bool)}
    (hrest : w.stage = .resting last) {network : Network} {reply : Reply} (clock : Clock)
    {d : Depot Store} (hreply : ∀ request, network d.sent request = reply) :
    ∃ answer, w.consumer.execute { config := w.config, network } clock d =
        (answer, (w.round reply clock clock d).1.consumer, (w.round reply clock clock d).2) ∧
      (w.round reply clock clock d).1.stage = .resting (some answer) := by
  have hsent : (d.answer (w.consumer.claim clock)).2.sent = d.sent := rfl
  unfold Consumer.execute round claim
  rw [hrest]
  dsimp only
  revert hsent
  rcases d.answer (w.consumer.claim clock) with ⟨e | _ | item, d'⟩ <;> intro hsent
  · exact ⟨_, rfl, rfl⟩
  · exact ⟨_, rfl, rfl⟩
  · unfold Consumer.handle
    cases hplace : item.isPlaceholder with
    | true =>
      simp only [respond, settle, hplace, if_true]
      exact ⟨_, rfl, rfl⟩
    | false =>
      have hdispatch : ∀ other : Network, (∀ request, other d.sent request = reply) →
          w.config.dispatch other d'.sent item =
            w.config.dispatch (fun _ _ => reply) d'.sent item := by
        intro other hother
        unfold DispatchConfig.dispatch
        cases w.config.request item with
        | error failure => rfl
        | ok request =>
          dsimp only
          rw [show d'.sent = d.sent from hsent, hother]
      simp only [respond, settle, hplace, Dispatcher.dispatch, hdispatch network hreply,
        Bool.false_eq_true, if_false]
      exact ⟨_, rfl, rfl⟩

/-- The item that the next settlement is about. -/
def settling? (w : Worker) : Option WorkItem :=
  match w.stage with
  | .holding item => if item.isPlaceholder then some item else none
  | .dispatched item _ => some item
  | _ => none

/-- The item that is claimed and not settled. -/
def held? (w : Worker) : Option WorkItem :=
  match w.stage with
  | .holding item => some item
  | .dispatched item _ => some item
  | _ => none

/-! ### What a worker asks of the store -/

def claims? (w : Worker) : Option Operation :=
  match w.stage with
  | .resting _ => some (.next w.consumer.shard)
  | _ => none

def settles? (w : Worker) (clock : Clock) : Option Operation :=
  match w.stage with
  | .resting _ => none
  | .idle => if w.consumer.purgeDue clock then some (.purge w.consumer.shard) else none
  | .holding item =>
    if item.isPlaceholder then some (.complete item.id w.consumer.shard) else none
  | .dispatched item (.complete _) => some (.complete item.id w.consumer.shard)
  | .dispatched item (.delay _) => some (.delay item.id w.consumer.shard)
  | .dispatched item (.fail _) => some (.fail item.id w.consumer.shard)

theorem store_claim (w : Worker) (clock : Clock) (d : Depot Store) :
    (w.claim clock d).2.store =
      match w.claims? with
      | some operation => (operation.run clock d.store).2
      | none => d.store := by
  unfold claim claims?
  cases w.stage with
  | resting last =>
    dsimp only [Operation.run]
    rw [Answer.map_snd]
    unfold Depot.answer Consumer.claim
    dsimp only
    rcases Backend.next clock w.consumer.shard d.store with ⟨e | _ | item, s⟩ <;> rfl
  | _ => rfl

theorem store_respond (w : Worker) (reply : Reply) (d : Depot Store) :
    (w.respond reply d).2.store = d.store := by
  unfold respond
  cases w.stage with
  | holding item =>
    dsimp only
    split <;> rfl
  | _ => rfl

theorem store_settle (w : Worker) (clock : Clock) (d : Depot Store) :
    (w.settle clock d).2.store =
      match w.settles? clock with
      | some operation => (operation.run clock d.store).2
      | none => d.store := by
  unfold settle settles?
  cases w.stage with
  | resting last => rfl
  | idle =>
    dsimp only
    unfold Consumer.purge
    cases w.consumer.purgeDue clock with
    | true =>
      simp only [Operation.run, Answer.map_snd, if_true]
      rcases Backend.purge clock w.consumer.shard d.store with ⟨e | removed, s⟩ <;> rfl
    | false => rfl
  | holding item =>
    dsimp only
    split
    · dsimp only [Operation.run, Depot.answer]
      rw [Answer.map_snd, Answer.map_snd]
    · rfl
  | dispatched item outcome =>
    dsimp only [Depot.answer]
    unfold Consumer.settle
    cases outcome <;> exact (Answer.map_snd _ _).trans (Answer.map_snd _ _).symm

end Worker

/-! ### Crews -/

/-- A store with the workers that share it, and the requests that were sent for its items. -/
structure Crew where
  depot : Depot Store
  workers : List Worker

/-- What happens next in a crew. -/
inductive Act (sharding : Sharding) where
  /-- Something else is asked of the store, only not that an item be completed. -/
  | operate (call : Store.Call sharding)
      (noneCompleted : ∀ id shard, call.request ≠ .operate (.complete id shard))
  | claim (number : Nat) (clock : Clock)
  /-- The request of the worker of a number is replied to. -/
  | respond (number : Nat) (reply : Reply)
  | settle (number : Nat) (clock : Clock)

namespace Crew

variable {sharding : Sharding}

def turn (crew : Crew) (number : Nat) (f : Worker → Depot Store → Worker × Depot Store) : Crew :=
  match crew.workers[number]? with
  | none => crew
  | some w =>
    let (w, depot) := f w crew.depot
    { depot, workers := crew.workers.set number w }

/-- What an act makes of a crew.  A worker does nothing that it is not ready for. -/
def step (crew : Crew) : Act sharding → Crew
  | .operate call _ =>
    { crew with depot := { crew.depot with store := (call.run crew.depot.store).2 } }
  | .claim number clock => crew.turn number (·.claim clock)
  | .respond number reply => crew.turn number (·.respond reply)
  | .settle number clock => crew.turn number (·.settle clock)

def after (crew : Crew) (acts : List (Act sharding)) : Crew := acts.foldl step crew

/-- The crew of a new store; each worker has settings of its own, and serves a shard. -/
def start (sharding : Sharding) (workers : List (DispatchConfig × Shard)) : Crew where
  depot := { store := .empty sharding }
  workers := workers.map fun (config, shard) => ⟨{ shard }, config, .resting none⟩

def reached (workers : List (DispatchConfig × Shard)) (acts : List (Act sharding)) : Crew :=
  (start sharding workers).after acts

/-- The items that an act puts on the record of completed items. -/
def entered (crew : Crew) (act : Act sharding) : List CompletedItem :=
  (crew.step act).depot.store.archived.diff crew.depot.store.archived

/-- The items that are put on the record one after another. -/
def entries (crew : Crew) : List (Act sharding) → List CompletedItem
  | [] => []
  | act :: acts => crew.entered act ++ (crew.step act).entries acts

theorem after_append (crew : Crew) (acts more : List (Act sharding)) :
    crew.after (acts ++ more) = (crew.after acts).after more := List.foldl_append

theorem worker_turn {crew : Crew} {number i : Nat}
    {f : Worker → Depot Store → Worker × Depot Store} {w : Worker}
    (h : (crew.turn number f).workers[i]? = some w) :
    crew.workers[i]? = some w ∨
      ∃ old, i = number ∧ crew.workers[number]? = some old ∧ w = (f old crew.depot).1 := by
  unfold turn at h
  cases hold : crew.workers[number]? with
  | none =>
    rw [hold] at h
    exact Or.inl h
  | some old =>
    rw [hold] at h
    dsimp only at h
    rw [List.getElem?_set] at h
    by_cases hi : number = i
    · rw [if_pos hi] at h
      split at h
      · exact Or.inr ⟨old, hi.symm, rfl, (Option.some.inj h).symm⟩
      · cases h
    · rw [if_neg hi] at h
      exact Or.inl h

/-! ### What a crew asks of its store -/

def call? (crew : Crew) : Act sharding → Option (Store.Call sharding)
  | .operate call _ => some call
  | .claim number clock =>
    (crew.workers[number]?.bind (·.claims?)).map fun operation => ⟨clock, .operate operation⟩
  | .respond _ _ => none
  | .settle number clock =>
    (crew.workers[number]?.bind (·.settles? clock)).map fun operation =>
      ⟨clock, .operate operation⟩

theorem store_step (crew : Crew) (act : Act sharding) :
    (crew.step act).depot.store =
      crew.depot.store.after (crew.call? act).toList := by
  cases act with
  | operate call noneCompleted => rfl
  | claim number clock =>
    dsimp only [step, turn, call?]
    cases crew.workers[number]? with
    | none => rfl
    | some w =>
      have hstore := w.store_claim clock crew.depot
      dsimp only [Option.bind_some]
      cases hclaims : w.claims? <;> rw [hclaims] at hstore <;> exact hstore
  | respond number reply =>
    dsimp only [step, turn, call?]
    cases crew.workers[number]? with
    | none => rfl
    | some w => exact w.store_respond reply crew.depot
  | settle number clock =>
    dsimp only [step, turn, call?]
    cases crew.workers[number]? with
    | none => rfl
    | some w =>
      have hstore := w.store_settle clock crew.depot
      dsimp only [Option.bind_some]
      cases hsettles : w.settles? clock <;> rw [hsettles] at hstore <;> exact hstore

/-- Whether the store of a crew has come from a new one. -/
def IsReal (sharding : Sharding) (crew : Crew) : Prop :=
  ∃ calls : List (Store.Call sharding), crew.depot.store = .reached calls

theorem IsReal.step {crew : Crew} (h : crew.IsReal sharding) (act : Act sharding) :
    (crew.step act).IsReal sharding := by
  obtain ⟨calls, hcalls⟩ := h
  refine ⟨calls ++ (crew.call? act).toList, ?_⟩
  rw [store_step, hcalls]
  exact List.foldl_append.symm

theorem IsReal.after {crew : Crew} (h : crew.IsReal sharding) (acts : List (Act sharding)) :
    (crew.after acts).IsReal sharding := by
  induction acts generalizing crew with
  | nil => exact h
  | cons act acts ih => exact ih (h.step act)

theorem isReal_start (sharding : Sharding) (workers : List (DispatchConfig × Shard)) :
    (start sharding workers).IsReal sharding := ⟨[], rfl⟩

theorem isReal_reached (workers : List (DispatchConfig × Shard)) (acts : List (Act sharding)) :
    (reached workers acts).IsReal sharding := (isReal_start sharding workers).after acts

theorem IsReal.sound {crew : Crew} (h : crew.IsReal sharding) :
    crew.depot.store.Sound ∧ crew.depot.store.sharding = sharding := by
  obtain ⟨calls, hcalls⟩ := h
  rw [hcalls]
  exact Store.reached_sound calls

/-! ### What enters the record -/

/-- What an act puts on the record is the item that it completes. -/
theorem entered_cases {crew : Crew} (h : crew.IsReal sharding) (act : Act sharding) :
    crew.entered act = [] ∨ ∃ call id shard item, crew.call? act = some call ∧
      call.request = .operate (.complete id shard) ∧ crew.depot.store.item? shard id = some item ∧
      item ∈ call.completed crew.depot.store ∧
      crew.entered act = [⟨item, call.clock.storeNow⟩] := by
  obtain ⟨hs, hsharding⟩ := h.sound
  have hstep := crew.store_step act
  cases hcall : crew.call? act with
  | none =>
    rw [hcall] at hstep
    unfold entered
    rw [hstep]
    exact Or.inl (Store.diff_of_sublist (.refl _))
  | some call =>
    rw [hcall] at hstep
    have hentered := call.archived hs hsharding
    have hsame : crew.entered act =
        (call.run crew.depot.store).2.archived.diff crew.depot.store.archived := by
      unfold entered
      rw [hstep]
      rfl
    rw [← hsame] at hentered
    rcases call.completed_cases crew.depot.store with hnone | ⟨id, shard, item, hc, hitem, hone⟩
    · rw [hnone] at hentered
      exact Or.inl (List.perm_nil.1 hentered)
    · rw [hone] at hentered
      refine Or.inr ⟨call, id, shard, item, rfl, hc, hitem, ?_, List.perm_singleton.1 hentered⟩
      rw [hone]
      exact List.mem_singleton_self item

/-- What enters the record is pending before it does, and not afterwards. -/
theorem entered_once {crew : Crew} (h : crew.IsReal sharding) {act : Act sharding}
    {done : CompletedItem} (hd : done ∈ crew.entered act) :
    done.item.id ∈ crew.depot.store.pendingIds ∧
      done.item.id ∉ (crew.step act).depot.store.pendingIds := by
  rcases entered_cases h act with hnone | ⟨call, id, shard, item, hcall, -, -, hcompleted, hone⟩
  · rw [hnone] at hd
    cases hd
  · rw [hone, List.mem_singleton] at hd
    subst hd
    obtain ⟨calls, hcalls⟩ := h
    have hstep := crew.store_step act
    rw [hcall, hcalls] at hstep
    rw [hcalls] at hcompleted
    obtain ⟨hpending, hgone⟩ := call.completed_once calls hcompleted
    rw [hcalls, hstep]
    refine ⟨hpending.mem_pendingIds, ?_⟩
    rwa [Store.reached_append] at hgone

theorem isPending_step {crew : Crew} (h : crew.IsReal sharding) {act : Act sharding}
    {b : WorkItem} (hb : (crew.step act).depot.store.IsPending b) :
    crew.depot.store.nextId ≤ b.id ∨ ∃ a, crew.depot.store.IsPending a ∧ b.Is a := by
  obtain ⟨hs, hsharding⟩ := h.sound
  rw [store_step] at hb
  cases hcall : crew.call? act with
  | none =>
    rw [hcall] at hb
    exact Or.inr ⟨b, hb, .refl b⟩
  | some call =>
    rw [hcall] at hb
    exact call.isPending hs hsharding hb

theorem nextId_step {crew : Crew} (h : crew.IsReal sharding) (act : Act sharding) :
    crew.depot.store.nextId ≤ (crew.step act).depot.store.nextId := by
  obtain ⟨hs, hsharding⟩ := h.sound
  rw [store_step]
  exact (Store.ascends_after hs hsharding _ default).1

theorem mem_entries {crew : Crew} (h : crew.IsReal sharding) {acts : List (Act sharding)}
    {done : CompletedItem} (hd : done ∈ crew.entries acts) :
    done.item.id ∈ crew.depot.store.pendingIds ∨ crew.depot.store.nextId ≤ done.item.id := by
  induction acts generalizing crew with
  | nil => cases hd
  | cons act acts ih =>
    rcases List.mem_append.1 hd with hfirst | hrest
    · exact Or.inl (entered_once h hfirst).1
    · -- what is pending after the act was so before, or got its number by it
      rcases ih (h.step act) hrest with hpending | hnew
      · obtain ⟨item, hitem, hid⟩ := Store.mem_pendingIds hpending
        rw [← hid]
        rcases isPending_step h hitem with hnew | ⟨a, ha, hsame⟩
        · exact Or.inr hnew
        · exact Or.inl (hsame.id ▸ ha.mem_pendingIds)
      · exact Or.inr (Int.le_trans (nextId_step h act) hnew)

/-- No number enters the record twice. -/
theorem nodup_entries {crew : Crew} (h : crew.IsReal sharding) (acts : List (Act sharding)) :
    ((crew.entries acts).map (·.item.id)).Nodup := by
  induction acts generalizing crew with
  | nil => exact List.nodup_nil
  | cons act acts ih =>
    show ((crew.entered act ++ (crew.step act).entries acts).map (·.item.id)).Nodup
    rw [List.map_append]
    refine List.nodup_append.2 ⟨?_, ih (h.step act), ?_⟩
    · rcases entered_cases h act with hnone | ⟨_, _, _, _, -, -, -, -, hone⟩
      · rw [hnone]
        exact List.nodup_nil
      · rw [hone]
        exact List.pairwise_singleton _ _
    · intro id hid later hlater heq
      subst heq
      obtain ⟨done, hdone, rfl⟩ := List.mem_map.1 hid
      obtain ⟨other, hother, hsame⟩ := List.mem_map.1 hlater
      -- what enters now is not pending any more, and new numbers are greater
      obtain ⟨hpending, hgone⟩ := entered_once h hdone
      rcases mem_entries (h.step act) hother with hstill | hnew
      · exact hgone (hsame ▸ hstill)
      · obtain ⟨item, hitem, hid⟩ := Store.mem_pendingIds hpending
        rw [hsame, ← hid] at hnew
        have hlt := Int.lt_of_lt_of_le (hitem.id_lt h.sound.1) (nextId_step h act)
        exact absurd hnew (Int.not_le.2 hlt)

end Crew

end Courier
