/-
  Courier/Proofs/Consumer/Verdict.lean
  ====================================
  **Whose verdict an item is settled by.**

  A lease does not tell whose it is, so the store does not know a late worker from
  any other.  It needs not: a worker settles by number, whatever is pending under that
  number is the item it claimed (`Store.Knows`), and only the head of a queue is
  settled.  So a verdict is about the item that was requested, or about nothing
  (`Crew.completes_only_accepted`).
-/
import Courier.Proofs.Consumer.Crew
import Mathlib.Data.List.Induction

namespace Courier

open Courier.Time

/-! ### What a worker knows of its item -/

namespace Store

variable {sharding : Sharding} {s : Store} {shard : Shard} {item : WorkItem}

/-- Whether an item belongs to a shard of the deployment, and whatever is pending under its number
    is that item. -/
structure Knows (s : Store) (shard : Shard) (item : WorkItem) : Prop where
  here : item.shard = shard
  known : shard ∈ s.sharding.shards
  old : item.id < s.nextId
  only : ∀ a, s.IsPending a → a.id = item.id → a.Is item

theorem Knows.call (h : s.Knows shard item) (hs : s.Sound) (hsharding : s.sharding = sharding)
    (c : Call sharding) : (c.run s).2.Knows shard item where
  here := h.here
  known := by
    rw [(c.run_sound hs hsharding).2, ← hsharding]
    exact h.known
  old := Int.lt_of_lt_of_le h.old (ascends_after hs hsharding [c] default).1
  only b hb hid := by
    rcases c.isPending hs hsharding hb with hnew | ⟨a, ha, hsame⟩
    · rw [hid] at hnew
      exact absurd h.old (Int.not_lt.2 hnew)
    · exact hsame.trans (h.only a ha (hsame.id.symm.trans hid))

theorem knows_claimed (calls : List (Call sharding)) {c : Call sharding}
    (hc : c.request = .operate (.next shard))
    (h : ((reached calls).next c.clock.storeNow shard).1 = .ok (some item)) :
    (reached (calls ++ [c])).Knows shard item := by
  obtain ⟨hs, hsharding⟩ := reached_sound calls
  obtain ⟨lane, row, head, hl, hpoll, hcandidate, rfl, hafter⟩ := next_eq_some hs h
  have hstate : reached (calls ++ [c]) =
      (reached calls).setLane (lane.poll.lease c.clock.storeNow row head) := by
    rw [← hafter, reached, after, List.foldl_concat, Call.run_operate hc]
    exact Answer.map_snd _ _
  obtain ⟨hs', hsharding'⟩ := reached_sound (calls ++ [c])
  have hshard : lane.poll.shard = shard := (Lane.shard_poll lane).trans (mem_of_lane? hl).2
  have hpending : (reached (calls ++ [c])).IsPending (head.attempted c.clock.storeNow) := by
    rw [hstate]
    refine ⟨_, mem_setLane (mem_of_lane? hl).1 (Lane.shard_poll lane), ?_⟩
    exact List.mem_map.2 ⟨head, hcandidate.item, if_pos rfl⟩
  constructor
  case here => exact hcandidate.shard.trans hshard
  case known =>
    rw [hsharding', ← hsharding, ← hs.shards, ← (mem_of_lane? hl).2]
    exact List.mem_map_of_mem (mem_of_lane? hl).1
  case old => exact hpending.id_lt hs'
  case only =>
    intro a ha hid
    -- whatever is held under the number is the item that was handed out
    have hnodup := nodup_ids_reached (calls ++ [c])
    rw [held_eq hnodup (IsPending.mem_held ha) hpending.mem_held hid]
    exact .refl _

theorem Confined.of_is {s' : Store} {found : WorkItem} (h : s.Confined found s')
    (hsame : found.Is item) : s.Confined item s' where
  rows queue hne := by
    apply h.rows
    unfold WorkItem.queueRef at hne ⊢
    rwa [hsame.queueName, hsame.shard]
  items other ho hne := h.items other ho (hsame.id ▸ hne)

/-- The operations that settle the item of a number. -/
def settlements (id : WorkItemId) (shard : Shard) : List Operation :=
  [.complete id shard, .fail id shard, .delay id shard]

/-- A settlement touches nothing but its item and the row of the item's queue. -/
theorem Knows.confined (h : s.Knows shard item) (hs : s.Sound) (clock : Clock)
    {operation : Operation} (hsettles : operation ∈ settlements item.id shard) :
    s.Confined item (operation.run clock s).2 := by
  have hcases : (operation.run clock s).2 = s ∨ ∃ found, s.item? shard item.id = some found ∧
      s.Confined found (operation.run clock s).2 := by
    simp only [settlements, List.mem_cons, List.not_mem_nil, or_false] at hsettles
    rcases hsettles with rfl | rfl | rfl <;> dsimp only [Operation.run] <;> rw [Answer.map_snd]
    · exact complete_confined hs clock.storeNow item.id shard
    · exact settleRow_confined hs item.id shard fun _ => rfl
    · exact settleRow_confined hs item.id shard fun _ => rfl
  rcases hcases with hsame | ⟨found, hfound, hconfined⟩
  · rw [hsame]
    exact .refl item s
  · obtain ⟨hpending, hid⟩ := isPending_of_item? hfound
    exact hconfined.of_is (h.only found hpending hid)

/-- A settlement of an item that does not head its queue finds nothing and changes nothing. -/
theorem Knows.not_found (h : s.Knows shard item) (hs : s.Sound) (clock : Clock)
    {operation : Operation} (hsettles : operation ∈ settlements item.id shard)
    (hlate : ¬ s.IsHead item.queueRef shard item.id) :
    ∃ missing, operation.run clock s = (.error (.notFound missing), s) := by
  have hnot : ∀ found, s.item? shard item.id = some found →
      ¬ s.IsHead ⟨found.queueName, shard⟩ shard item.id := by
    intro found hfound
    obtain ⟨hpending, hid⟩ := isPending_of_item? hfound
    unfold WorkItem.queueRef at hlate
    rw [h.here] at hlate
    rwa [(h.only found hpending hid).queueName]
  obtain ⟨missing, hmissing⟩ := exists_notHead h.known hnot
  have hrefuses : s.Refuses (.notFound missing) operation := by
    simp only [settlements, List.mem_cons, List.not_mem_nil, or_false] at hsettles
    rcases hsettles with rfl | rfl | rfl
    · exact Or.inr (Or.inl hmissing)
    · exact Or.inr hmissing
    · exact Or.inr hmissing
  obtain ⟨hiff, hsame⟩ := operation_fails hs clock operation
  have herror := (hiff _).2 hrefuses
  exact ⟨missing, Prod.ext herror (hsame _ herror)⟩

end Store

namespace Worker

variable {w : Worker} {clock : Clock} {d : Depot Store} {item : WorkItem}

theorem settle_eq (h : w.settling? = some item) (clock : Clock) (d : Depot Store) :
    ∃ operation ∈ Store.settlements item.id w.consumer.shard, ∃ more : Bool,
      w.settle clock d =
        ({ w with stage := .resting (some ((operation.run clock d.store).1.map fun _ => more)) },
          { d with store := (operation.run clock d.store).2 }) := by
  have hcomplete : Operation.complete item.id w.consumer.shard ∈
      Store.settlements item.id w.consumer.shard := by simp [Store.settlements]
  revert h
  unfold settling? settle
  cases w.stage with
  | resting last => exact fun h => nomatch h
  | idle => exact fun h => nomatch h
  | holding held =>
    dsimp only
    split
    · intro h
      obtain rfl := Option.some.inj h
      refine ⟨_, hcomplete, true, ?_⟩
      dsimp only [Depot.answer, Operation.run]
      rcases Backend.complete clock held.id w.consumer.shard d.store with ⟨e | value, s⟩ <;> rfl
    · exact fun h => nomatch h
  | dispatched held outcome =>
    intro h
    obtain rfl := Option.some.inj h
    dsimp only [Depot.answer, Consumer.settle]
    cases outcome with
    | complete code =>
      refine ⟨_, hcomplete, true, ?_⟩
      dsimp only [Operation.run]
      rcases Backend.complete clock held.id w.consumer.shard d.store with ⟨e | value, s⟩ <;> rfl
    | delay code =>
      refine ⟨.delay held.id w.consumer.shard, by simp [Store.settlements], false, ?_⟩
      dsimp only [Operation.run]
      rcases Backend.delay clock held.id w.consumer.shard d.store with ⟨e | value, s⟩ <;> rfl
    | fail failure =>
      refine ⟨.fail held.id w.consumer.shard, by simp [Store.settlements], true, ?_⟩
      dsimp only [Operation.run]
      rcases Backend.fail clock held.id w.consumer.shard d.store with ⟨e | value, s⟩ <;> rfl

theorem held_of_settling (h : w.settling? = some item) : w.held? = some item := by
  revert h
  unfold settling? held?
  cases w.stage with
  | holding held =>
    dsimp only
    split
    · exact fun h => h
    · exact fun h => nomatch h
  | _ => exact fun h => h

/-- A worker that asks for a completion was told to, or holds a placeholder. -/
theorem settling_of_complete {id : WorkItemId} {shard : Shard}
    (h : w.settles? clock = some (.complete id shard)) :
    ∃ item, w.settling? = some item ∧ item.id = id ∧ shard = w.consumer.shard ∧
      (item.isPlaceholder = true ∨ ∃ code, w.stage = .dispatched item (.complete code)) := by
  revert h
  unfold settling? settles?
  cases w.stage with
  | resting last => exact fun h => nomatch h
  | idle =>
    dsimp only
    split <;> exact fun h => nomatch h
  | holding held =>
    dsimp only
    split
    · rename_i hplace
      intro h
      cases h
      exact ⟨held, rfl, rfl, rfl, Or.inl hplace⟩
    · exact fun h => nomatch h
  | dispatched held outcome =>
    cases outcome with
    | complete code =>
      intro h
      cases h
      exact ⟨held, rfl, rfl, rfl, Or.inr ⟨code, rfl⟩⟩
    | _ => exact fun h => nomatch h

theorem held_claim (h : (w.claim clock d).1.held? = some item) :
    (w.claim clock d).1.consumer = w.consumer ∧ (w.held? = some item ∨
      w.claims? = some (.next w.consumer.shard) ∧
        (d.store.next clock.storeNow w.consumer.shard).1 = .ok (some item)) := by
  revert h
  unfold claim
  cases hstage : w.stage with
  | resting last =>
    have hclaims : w.claims? = some (.next w.consumer.shard) := by
      unfold claims?
      rw [hstage]
    have hanswer : d.answer (w.consumer.claim clock) =
        ((d.store.next clock.storeNow w.consumer.shard).1,
          { d with store := (d.store.next clock.storeNow w.consumer.shard).2 }) := rfl
    dsimp only
    rw [hanswer]
    rcases d.store.next clock.storeNow w.consumer.shard with ⟨e | _ | found, s⟩
    · exact fun h => nomatch h
    · exact fun h => nomatch h
    · intro h
      obtain rfl : found = item := Option.some.inj h
      exact ⟨rfl, Or.inr ⟨hclaims, rfl⟩⟩
  | _ => exact fun h => ⟨rfl, Or.inl h⟩

theorem held_respond {reply : Reply} (h : (w.respond reply d).1.held? = some item) :
    (w.respond reply d).1.consumer = w.consumer ∧ w.held? = some item := by
  revert h
  unfold respond
  cases hstage : w.stage with
  | holding held =>
    dsimp only
    split
    · exact fun h => ⟨rfl, h⟩
    · intro h
      refine ⟨rfl, ?_⟩
      unfold held?
      rw [hstage]
      exact h
  | _ => exact fun h => ⟨rfl, h⟩

theorem held_settle (h : (w.settle clock d).1.held? = some item) :
    (w.settle clock d).1.consumer = w.consumer ∧ w.held? = some item := by
  revert h
  unfold settle
  cases w.stage with
  | resting last => exact fun h => ⟨rfl, h⟩
  | idle => exact fun h => nomatch h
  | holding held =>
    dsimp only
    split
    · exact fun h => nomatch h
    · exact fun h => ⟨rfl, h⟩
  | dispatched held outcome => exact fun h => nomatch h

end Worker

namespace Crew

variable {sharding : Sharding} {crew : Crew} {number : Nat} {w : Worker} {item : WorkItem}

/-- Whether the store knows what the workers hold. -/
def Knowing (crew : Crew) : Prop :=
  ∀ (number : Nat) (w : Worker) (item : WorkItem), crew.workers[number]? = some w →
    w.held? = some item → crew.depot.store.Knows w.consumer.shard item

theorem stage_start {workers : List (DispatchConfig × Shard)}
    (h : (start sharding workers).workers[number]? = some w) : w.stage = .resting none := by
  obtain ⟨hi, rfl⟩ := List.getElem?_eq_some_iff.1 h
  simp only [start, List.getElem_map]

theorem knowing_start (workers : List (DispatchConfig × Shard)) :
    (start sharding workers).Knowing := by
  intro number w item hw hheld
  unfold Worker.held? at hheld
  rw [stage_start hw] at hheld
  cases hheld

theorem knows_step (h : crew.IsReal sharding) (act : Act sharding) {shard : Shard}
    (hk : crew.depot.store.Knows shard item) : (crew.step act).depot.store.Knows shard item := by
  obtain ⟨hs, hsharding⟩ := h.sound
  rw [store_step]
  cases crew.call? act with
  | none => exact hk
  | some call => exact hk.call hs hsharding call

theorem Knowing.step (hk : crew.Knowing) (h : crew.IsReal sharding) (act : Act sharding) :
    (crew.step act).Knowing := by
  intro i w item hw hheld
  cases act with
  | operate call noneCompleted => exact knows_step h _ (hk i w item hw hheld)
  | claim number clock =>
    rcases worker_turn hw with hold | ⟨old, rfl, hold, rfl⟩
    · exact knows_step h _ (hk i w item hold hheld)
    · obtain ⟨hsame, hheld | ⟨hclaims, hnext⟩⟩ := Worker.held_claim hheld
      · rw [hsame]
        exact knows_step h _ (hk i old item hold hheld)
      · -- the one step by which a worker gets hold of an item
        obtain ⟨calls, hcalls⟩ := h
        let call : Store.Call sharding := ⟨clock, .operate (.next old.consumer.shard)⟩
        have hcall : crew.call? (.claim i clock) = some call := by
          dsimp only [call?]
          rw [hold, Option.bind_some, hclaims]
          rfl
        rw [hcalls] at hnext
        rw [hsame, store_step, hcall, hcalls]
        have hknows := Store.knows_claimed calls (c := call) rfl hnext
        rwa [Store.reached_append] at hknows
  | respond number reply =>
    rcases worker_turn hw with hold | ⟨old, rfl, hold, rfl⟩
    · exact knows_step h _ (hk i w item hold hheld)
    · obtain ⟨hsame, hheld⟩ := Worker.held_respond hheld
      rw [hsame]
      exact knows_step h _ (hk i old item hold hheld)
  | settle number clock =>
    rcases worker_turn hw with hold | ⟨old, rfl, hold, rfl⟩
    · exact knows_step h _ (hk i w item hold hheld)
    · obtain ⟨hsame, hheld⟩ := Worker.held_settle hheld
      rw [hsame]
      exact knows_step h _ (hk i old item hold hheld)

theorem Knowing.after (hk : crew.Knowing) (h : crew.IsReal sharding) (acts : List (Act sharding)) :
    (crew.after acts).Knowing := by
  induction acts generalizing crew with
  | nil => exact hk
  | cons act acts ih => exact ih (hk.step h act) (h.step act)

theorem knowing_reached (workers : List (DispatchConfig × Shard)) (acts : List (Act sharding)) :
    (reached workers acts).Knowing :=
  (knowing_start workers).after (isReal_start sharding workers) acts

end Crew

/-! ### Responses -/

/-- An outcome that completes an item goes back to a status of the 200s for its request. -/
theorem DispatchConfig.dispatch_eq_complete {config : DispatchConfig} {reply : Reply}
    {sent : List Request} {item : WorkItem} {code : Nat}
    (h : (config.dispatch (fun _ _ => reply) sent item).1 = .complete code) :
    ∃ request, config.request item = .ok request ∧ reply = .status code ∧
      200 ≤ code ∧ code < 300 := by
  unfold dispatch at h
  cases hrequest : config.request item with
  | error failure =>
    rw [hrequest] at h
    cases h
  | ok request =>
    rw [hrequest] at h
    refine ⟨request, rfl, ?_⟩
    cases reply with
    | dropped => cases h
    | status status =>
      have hclassify : config.classify status = .complete code := h
      unfold classify at hclassify
      split at hclassify
      · rename_i hok
        obtain rfl := Outcome.complete.inj hclassify
        exact ⟨rfl, hok⟩
      · split at hclassify <;> cases hclassify

theorem Worker.respond_eq_dispatched {w : Worker} {reply : Reply} {d : Depot Store}
    {item : WorkItem} {outcome : Outcome}
    (h : (w.respond reply d).1.stage = .dispatched item outcome) :
    (w.respond reply d).1 = w ∨ w.stage = .holding item ∧
      (w.config.dispatch (fun _ _ => reply) d.sent item).1 = outcome := by
  revert h
  unfold respond
  cases hstage : w.stage with
  | holding held =>
    dsimp only
    split
    · exact fun _ => Or.inl rfl
    · intro h
      obtain ⟨rfl, houtcome⟩ := Stage.dispatched.inj h
      exact Or.inr ⟨rfl, houtcome⟩
  | _ => exact fun _ => Or.inl rfl

theorem Worker.claim_eq_dispatched {w : Worker} {clock : Clock} {d : Depot Store}
    {item : WorkItem} {outcome : Outcome}
    (h : (w.claim clock d).1.stage = .dispatched item outcome) : (w.claim clock d).1 = w := by
  revert h
  unfold claim
  cases w.stage with
  | resting last =>
    dsimp only
    rcases d.answer (w.consumer.claim clock) with ⟨e | _ | found, d⟩ <;> exact fun h => nomatch h
  | _ => exact fun _ => rfl

theorem Worker.settle_eq_dispatched {w : Worker} {clock : Clock} {d : Depot Store}
    {item : WorkItem} {outcome : Outcome}
    (h : (w.settle clock d).1.stage = .dispatched item outcome) : (w.settle clock d).1 = w := by
  revert h
  unfold settle
  cases w.stage with
  | holding held =>
    dsimp only
    split
    · exact fun h => nomatch h
    · exact fun _ => rfl
  | resting last => exact fun _ => rfl
  | _ => exact fun h => nomatch h

namespace Crew

variable {sharding : Sharding} {crew : Crew} {number : Nat} {w : Worker} {item : WorkItem}
variable {outcome : Outcome} {code : Nat}

/-- A worker that has a reply had it before, or gets it just now. -/
theorem dispatched_step {act : Act sharding} (hw : (crew.step act).workers[number]? = some w)
    (hstage : w.stage = .dispatched item outcome) :
    crew.workers[number]? = some w ∨ ∃ reply old, act = .respond number reply ∧
      crew.workers[number]? = some old ∧ old.stage = .holding item ∧
      (old.config.dispatch (fun _ _ => reply) crew.depot.sent item).1 = outcome := by
  cases act with
  | operate call noneCompleted => exact Or.inl hw
  | claim i clock =>
    rcases worker_turn hw with hold | ⟨old, rfl, hold, rfl⟩
    · exact Or.inl hold
    · rw [Worker.claim_eq_dispatched hstage]
      exact Or.inl hold
  | respond i reply =>
    rcases worker_turn hw with hold | ⟨old, rfl, hold, rfl⟩
    · exact Or.inl hold
    · rcases Worker.respond_eq_dispatched hstage with hsame | ⟨hheld, houtcome⟩
      · rw [hsame]
        exact Or.inl hold
      · exact Or.inr ⟨reply, old, rfl, hold, hheld, houtcome⟩
  | settle i clock =>
    rcases worker_turn hw with hold | ⟨old, rfl, hold, rfl⟩
    · exact Or.inl hold
    · rw [Worker.settle_eq_dispatched hstage]
      exact Or.inl hold

/-- Whether the worker of a number, after some acts of a crew, sent a request for the item that it
    had claimed, was answered by a status of the 200s, and has not settled the item since. -/
structure Accepted (crew : Crew) (number : Nat) (item : WorkItem) (code : Nat)
    (first between : List (Act sharding)) : Prop where
  requested : ∃ w request, (crew.after first).workers[number]? = some w ∧
    w.stage = .holding item ∧ w.config.request item = .ok request ∧ request.itemId = item.id
  answered : 200 ≤ code ∧ code < 300
  kept : ∀ begun, begun <+: between → ∃ w,
    (crew.after (first ++ .respond number (.status code) :: begun)).workers[number]? = some w ∧
      w.stage = .dispatched item (.complete code)

/-- A worker that is about to complete a requested item got a status of the 200s for it. -/
theorem accepted_of_dispatched
    (hfresh : ∀ w, crew.workers[number]? = some w → w.stage ≠ .dispatched item (.complete code))
    (acts : List (Act sharding)) (hw : (crew.after acts).workers[number]? = some w)
    (hstage : w.stage = .dispatched item (.complete code)) :
    ∃ first between, acts = first ++ .respond number (.status code) :: between ∧
      crew.Accepted number item code first between := by
  -- the last act is the reply, or the worker had it before
  induction acts using List.reverseRecOn generalizing w with
  | nil => exact absurd hstage (hfresh w hw)
  | append_singleton acts act ih =>
    rw [after_append] at hw
    rcases dispatched_step hw hstage with hold | ⟨reply, old, rfl, hold, hheld, houtcome⟩
    · obtain ⟨first, between, rfl, haccepted⟩ := ih hold hstage
      refine ⟨first, between ++ [act], by simp, haccepted.requested, haccepted.answered, ?_⟩
      intro begun hbegun
      rcases List.prefix_concat_iff.1 hbegun with rfl | hbegun
      · refine ⟨w, ?_, hstage⟩
        rw [← List.cons_append, ← List.append_assoc, after_append]
        exact hw
      · exact haccepted.kept begun hbegun
    · obtain ⟨request, hrequest, rfl, hok⟩ := DispatchConfig.dispatch_eq_complete houtcome
      refine ⟨acts, [], rfl, ?_, hok, ?_⟩
      · exact ⟨old, request, hold, hheld, hrequest, DispatchConfig.itemId_of_request hrequest⟩
      · intro begun hbegun
        rw [List.prefix_nil.1 hbegun, after_append]
        exact ⟨w, hw, hstage⟩

theorem settles_of_call {act : Act sharding} {call : Store.Call sharding} {id : WorkItemId}
    {shard : Shard} (hcall : crew.call? act = some call)
    (hc : call.request = .operate (.complete id shard)) :
    ∃ number clock w, act = .settle number clock ∧ crew.workers[number]? = some w ∧
      w.settles? clock = some (.complete id shard) := by
  cases act with
  | operate other noneCompleted =>
    obtain rfl := Option.some.inj hcall
    exact absurd hc (noneCompleted id shard)
  | claim number clock =>
    obtain ⟨operation, hoperation, rfl⟩ := Option.map_eq_some_iff.1 hcall
    obtain ⟨w, -, hclaims⟩ := Option.bind_eq_some_iff.1 hoperation
    obtain rfl := Store.Request.operate.inj hc
    unfold Worker.claims? at hclaims
    split at hclaims <;> cases hclaims
  | respond number reply => cases hcall
  | settle number clock =>
    obtain ⟨operation, hoperation, rfl⟩ := Option.map_eq_some_iff.1 hcall
    obtain ⟨w, hw, hsettles⟩ := Option.bind_eq_some_iff.1 hoperation
    obtain rfl := Store.Request.operate.inj hc
    exact ⟨number, clock, w, rfl, hw, hsettles⟩

theorem turn_of_worker {f : Worker → Depot Store → Worker × Depot Store}
    (hw : crew.workers[number]? = some w) :
    crew.turn number f =
      { depot := (f w crew.depot).2, workers := crew.workers.set number (f w crew.depot).1 } := by
  unfold turn
  rw [hw]

/-- However the executions of consumers interleave with one another and with whatever else is
    asked of the store, no item is put on the record of completed items twice, and only the
    settlement of a worker that holds it puts it there: unless it is a placeholder, the worker had
    requested it and was answered by a status of the 200s.  A settlement of an item that does not
    head its queue any more finds nothing and changes nothing, and none ever touches another item
    or the row of another queue. -/
theorem completes_only_accepted (workers : List (DispatchConfig × Shard))
    (acts : List (Act sharding)) :
    (((start sharding workers).entries acts).map (·.item.id)).Nodup ∧
    (∀ (act : Act sharding), ∀ done ∈ (reached workers acts).entered act,
      ∃ number clock w item, act = .settle number clock ∧
        (reached workers acts).workers[number]? = some w ∧ w.settling? = some item ∧
        done.item.Is item ∧ (done.item.isPlaceholder = false →
          ∃ code first between, acts = first ++ .respond number (.status code) :: between ∧
            (start sharding workers).Accepted number item code first between)) ∧
    ∀ number clock w item, (reached workers acts).workers[number]? = some w →
      w.settling? = some item →
      (reached workers acts).depot.store.Confined item
        ((reached workers acts).step (.settle number clock : Act sharding)).depot.store ∧
      (¬ (reached workers acts).depot.store.IsHead item.queueRef w.consumer.shard item.id →
        ∃ missing, (reached workers acts).step (.settle number clock : Act sharding) =
          { reached workers acts with
            workers := (reached workers acts).workers.set number
              { w with stage := .resting (some (.error (.notFound missing))) } }) := by
  have hreal := isReal_reached workers acts
  obtain ⟨hs, hsharding⟩ := hreal.sound
  have hknowing := knowing_reached workers acts
  refine ⟨nodup_entries (isReal_start sharding workers) acts, ?_, ?_⟩
  · intro act done hdone
    rcases entered_cases hreal act with hnone | ⟨call, id, shard, item, hcall, hc, hitem, -, hone⟩
    · rw [hnone] at hdone
      cases hdone
    · rw [hone, List.mem_singleton] at hdone
      subst hdone
      obtain ⟨number, clock, w, rfl, hw, hsettles⟩ := settles_of_call hcall hc
      obtain ⟨held, hsettling, rfl, rfl, hcause⟩ := Worker.settling_of_complete hsettles
      obtain ⟨hpending, hid⟩ := Store.isPending_of_item? hitem
      have hknows := hknowing number w held hw (Worker.held_of_settling hsettling)
      have hsame : item.Is held := hknows.only item hpending hid
      refine ⟨number, clock, w, held, rfl, hw, hsettling, hsame, ?_⟩
      intro hreal
      rcases hcause with hplace | ⟨code, hstage⟩
      · rw [← hsame.isPlaceholder, hreal] at hplace
        cases hplace
      · refine ⟨code, accepted_of_dispatched ?_ acts hw hstage⟩
        intro other hother hdispatched
        rw [stage_start hother] at hdispatched
        cases hdispatched
  · intro number clock w item hw hsettling
    have hknows := hknowing number w item hw (Worker.held_of_settling hsettling)
    obtain ⟨operation, hsettles, more, hrun⟩ :=
      Worker.settle_eq hsettling clock (reached workers acts).depot
    have hstep : (reached workers acts).step (.settle number clock : Act sharding) = _ :=
      turn_of_worker (f := (·.settle clock)) hw
    rw [hstep, hrun]
    refine ⟨hknows.confined hs clock hsettles, ?_⟩
    intro hlate
    obtain ⟨missing, hmissing⟩ := hknows.not_found hs clock hsettles hlate
    rw [hmissing]
    exact ⟨missing, rfl⟩

/-- Two workers serve the same shard.  The lease of the first one ends before it is answered, so the
    second one claims the item as well and completes it. -/
def overtaken : List (Act .single) :=
  [.operate ⟨{ origin := ⟨10⟩ },
      .operate (.enqueue "" { url := "http://h/1", queue := some "a" })⟩
      (fun _ _ h => nomatch h),
   .operate ⟨{ origin := ⟨11⟩ },
      .operate (.enqueue "" { url := "http://h/2", queue := some "a" })⟩
      (fun _ _ h => nomatch h),
   .claim 0 { origin := ⟨12⟩ },
   .claim 1 { origin := ⟨13⟩, uptime := leaseDuration },
   .respond 1 (.status 204),
   .settle 1 { origin := ⟨14⟩, uptime := leaseDuration },
   .respond 0 (.status 503)]

example :
    let crew := reached [({}, ⟨0, 1⟩), ({}, ⟨0, 1⟩)] overtaken
    let late := crew.step (.settle 0 { origin := ⟨15⟩, uptime := leaseDuration } : Act .single)
    late.depot.store = crew.depot.store ∧
      late.depot.store.archived.map (·.item.id) = [1] ∧
      late.workers.map (·.stage) =
        [.resting (some (.error (.notFound (.item 1)))), .resting (some (.ok true))] := by
  decide +kernel

end Crew

end Courier
