/-
  Courier/Proofs/Consumer/Uninterrupted.lean
  ==========================================
  **An execution that nothing interrupts.**

  Time passes between the claim of an item and its settlement, but if nothing else is
  asked of the store meanwhile, the item still heads its queue, and the queue is
  neither locked nor blocked: the claim has found it so.  So an execution settles what
  it claimed, and the store refuses none of that (`Worker.settles_its_claim`): not the
  completion of an item that puts a lock on its queue, nor that of one that took over
  a block, nor that of a placeholder.
-/
import Courier.Proofs.Consumer.Verdict

namespace Courier

open Courier.Time

/-! ### Settlements -/

/-- How a claimed item is settled. -/
inductive Settlement where
  | completed
  | failed
  | delayed
deriving DecidableEq, Repr

/-- The settlement that an outcome comes to. -/
def Outcome.settlement : Outcome → Settlement
  | .complete _ => .completed
  | .delay _ => .delayed
  | .fail _ => .failed

/-- What a settlement asks of the store. -/
def Settlement.operation (id : WorkItemId) (shard : Shard) : Settlement → Operation
  | .completed => .complete id shard
  | .failed => .fail id shard
  | .delayed => .delay id shard

theorem Settlement.operation_mem_settlements (how : Settlement) (id : WorkItemId) (shard : Shard) :
    how.operation id shard ∈ Store.settlements id shard := by
  cases how <;> simp [Settlement.operation, Store.settlements]

/-- What a settlement makes of a store: a completion moves the item from the pending ones to the
    record, and the others change the row of its queue. -/
inductive Store.Settles (s : Store) (item : WorkItem) (now : Instant) :
    Settlement → Store → Prop where
  | completed {s' : Store} (gone : item.id ∉ s'.pendingIds)
      (archived : s'.archived.Perm (s.archived ++ [⟨item, now⟩])) : Settles s item now .completed s'
  | failed : Settles s item now .failed
      (s.updateLane item.shard (·.updateRow item.queueName fun row =>
        { row with errorCount := row.errorCount + 1, lockedUntil := now + failureBackoff }))
  | delayed : Settles s item now .delayed
      (s.updateLane item.shard (·.updateRow item.queueName fun row =>
        { row with errorCount := 0, lockedUntil := now }))

namespace DispatchConfig

variable {config : DispatchConfig} {item : WorkItem} {reply : Reply} {sending : List Request}

/-- Whether the request for an item is sent and answered with a status. -/
structure Receives (config : DispatchConfig) (item : WorkItem) (reply : Reply) (status : Nat) :
    Prop where
  real : item.isPlaceholder = false
  requested : ∃ request, config.request item = .ok request
  answered : reply = .status status

/-- Whether an item is to be settled in a way, by the response to its request: a status of the 200s
    completes it even if it is retryable, another one delays it if it is retryable, and all else
    fails it. -/
structure Demands (config : DispatchConfig) (item : WorkItem) (reply : Reply)
    (how : Settlement) : Prop where
  completed_iff : how = .completed ↔ item.isPlaceholder = true ∨
    ∃ status, config.Receives item reply status ∧ 200 ≤ status ∧ status < 300
  delayed_iff : how = .delayed ↔
    ∃ status, config.Receives item reply status ∧ ¬ (200 ≤ status ∧ status < 300) ∧
      status ∈ config.retryStatusCodes

/-- Whether requests are those to send for an item: one, if it has a URL of which a request can be
    made, and otherwise none. -/
structure Sends (config : DispatchConfig) (item : WorkItem) (sending : List Request) : Prop where
  atMostOne : sending.length ≤ 1
  forItem : ∀ request ∈ sending, config.request item = .ok request ∧ request.itemId = item.id
  requested : ∀ request, item.isPlaceholder = false → config.request item = .ok request →
    request ∈ sending
  placeholder : item.isPlaceholder = true → sending = []
  unresolved : ∀ error, config.resolve item.url = .error error → sending = []

theorem Demands.placeholder (hplace : item.isPlaceholder = true) :
    config.Demands item reply .completed where
  completed_iff := iff_of_true rfl (Or.inl hplace)
  delayed_iff := by
    refine iff_of_false (fun h => nomatch h) ?_
    rintro ⟨status, hreceives, -⟩
    exact Bool.false_ne_true (hreceives.real.symm.trans hplace)

theorem Sends.nothing
    (hnone : ∀ request, item.isPlaceholder = false → config.request item ≠ .ok request) :
    config.Sends item [] where
  atMostOne := Nat.zero_le 1
  forItem _ hrequest := nomatch hrequest
  requested request hreal hrequest := absurd hrequest (hnone request hreal)
  placeholder _ := rfl
  unresolved _ _ := rfl

/-- Where no response with a status arrives, the item fails. -/
theorem Demands.failed (hreal : item.isPlaceholder = false)
    (hnone : ∀ status, ¬ config.Receives item reply status) :
    config.Demands item reply .failed where
  completed_iff := by
    refine iff_of_false (fun h => nomatch h) ?_
    rintro (hplace | ⟨status, hreceives, -⟩)
    · exact Bool.false_ne_true (hreal.symm.trans hplace)
    · exact hnone status hreceives
  delayed_iff := by
    refine iff_of_false (fun h => nomatch h) ?_
    rintro ⟨status, hreceives, -⟩
    exact hnone status hreceives

/-- A response is judged by its status. -/
theorem Demands.classify {status : Nat} (h : config.Receives item reply status) :
    config.Demands item reply (config.classify status).settlement := by
  have honly : ∀ other, config.Receives item reply other → other = status := by
    intro other hother
    exact Reply.status.inj (hother.answered.symm.trans h.answered)
  have hreal : ¬ item.isPlaceholder = true := by
    rw [h.real]
    exact Bool.false_ne_true
  unfold DispatchConfig.classify
  constructor
  case completed_iff =>
    split
    · rename_i hok
      exact iff_of_true rfl (Or.inr ⟨status, h, hok⟩)
    · rename_i hnot
      refine iff_of_false (by split <;> exact fun h => nomatch h) ?_
      rintro (hplace | ⟨other, hother, hok⟩)
      · exact hreal hplace
      · exact hnot (honly other hother ▸ hok)
  case delayed_iff =>
    split
    · rename_i hok
      refine iff_of_false (fun h => nomatch h) ?_
      rintro ⟨other, hother, hnot, -⟩
      exact hnot (honly other hother ▸ hok)
    · rename_i hnot
      split
      · rename_i hretry
        exact iff_of_true rfl ⟨status, h, hnot, List.contains_iff_mem.1 hretry⟩
      · rename_i hretry
        refine iff_of_false (fun h => nomatch h) ?_
        rintro ⟨other, hother, -, hmem⟩
        exact hretry (List.contains_iff_mem.2 (honly other hother ▸ hmem))

/-- A dispatch sends what is to be sent, and comes to the settlement that is due. -/
theorem dispatch_spec (config : DispatchConfig) (reply : Reply) (sent : List Request)
    (hreal : item.isPlaceholder = false) :
    ∃ sending, (config.dispatch (fun _ _ => reply) sent item).2 = sending ++ sent ∧
      config.Sends item sending ∧
      config.Demands item reply
        (config.dispatch (fun _ _ => reply) sent item).1.settlement := by
  have hplace : ¬ item.isPlaceholder = true := by
    rw [hreal]
    exact Bool.false_ne_true
  unfold dispatch
  cases hrequest : config.request item with
  | error failure =>
    have hnone : ∀ request, config.request item ≠ .ok request := by
      intro request hok
      rw [hrequest] at hok
      cases hok
    refine ⟨[], rfl, .nothing fun request _ => hnone request, .failed hreal ?_⟩
    intro status hreceives
    obtain ⟨request, hok⟩ := hreceives.requested
    exact hnone request hok
  | ok request =>
    refine ⟨[request], rfl, ⟨Nat.le_refl 1, ?_, ?_, fun h => absurd h hplace, ?_⟩, ?_⟩
    · intro other hother
      obtain rfl := List.mem_singleton.1 hother
      exact ⟨hrequest, itemId_of_request hrequest⟩
    · intro other _ hother
      exact List.mem_singleton.2 (Except.ok.inj (hother.symm.trans hrequest))
    · intro error herror
      unfold DispatchConfig.request at hrequest
      rw [herror] at hrequest
      cases hrequest
    · cases reply with
      | status status => exact Demands.classify ⟨hreal, ⟨request, hrequest⟩, rfl⟩
      | dropped => exact Demands.failed hreal fun status hreceives => nomatch hreceives.answered

end DispatchConfig

namespace Store

variable {sharding : Sharding}

/-! ### Settling what was claimed -/

/-- What a completion that succeeds does to the item. -/
theorem settles_completed (calls : List (Call sharding)) {clock : Clock} {shard : Shard}
    {id : WorkItemId} {item : WorkItem} {s' : Store}
    (hitem : (reached calls).item? shard id = some item)
    (hrun : (reached calls).complete clock.storeNow id shard = (.ok (), s')) :
    (reached calls).Settles item clock.storeNow .completed s' := by
  obtain ⟨hs, hsharding⟩ := reached_sound calls
  let c : Call sharding := ⟨clock, .operate (.complete id shard)⟩
  have hanswer : c.run (reached calls) = (.ok .done, s') := by
    have hmap : c.run (reached calls) =
        ((reached calls).complete clock.storeNow id shard).map fun _ => .done := rfl
    rw [hmap, hrun]
    rfl
  have hcompleted : c.completed (reached calls) = [item] := by
    unfold Call.completed
    simp only [c] at hanswer ⊢
    rw [hanswer, hitem]
    rfl
  have harchived := Call.archived_append (c := c) hs hsharding (by simp [c]) (by simp [c])
  obtain ⟨-, hgone⟩ := c.completed_once calls (hcompleted ▸ List.mem_singleton_self item)
  rw [hcompleted, hanswer] at harchived
  rw [reached_append] at hgone
  rw [show (reached calls).after [c] = (c.run (reached calls)).2 from rfl, hanswer] at hgone
  exact .completed hgone harchived

/-- An item that was claimed is the head of its queue. -/
theorem Claims.isHead {s : Store} {now : Instant} {shard : Shard} {lane : Lane} {row : Row}
    {item : WorkItem} (h : s.Claims now shard lane row item) (hs : s.Sound) :
    (s.setLane (lane.poll.lease now row item)).item? shard item.id = some (item.attempted now) ∧
      (s.setLane (lane.poll.lease now row item)).IsHead item.queueRef shard item.id := by
  obtain ⟨events, hclaim, -⟩ := h.idles
  have hhead := Lane.head_lease (hs.lane h.here).poll (h.isCandidate hs)
  obtain ⟨hfound, -⟩ := Lane.head_eq_ok_iff.1 hhead
  exact ⟨(item?_of_lane? h.lane? item.id).trans hfound,
    (isHead_of_head (hclaim.sound hs) h.lane? hhead).2.2⟩

/-- The state after a claim is that of the history with the claim. -/
theorem Claims.reached_next {calls : List (Call sharding)} {clock : Clock} {shard : Shard}
    {lane : Lane} {row : Row} {item : WorkItem}
    (h : (reached calls).Claims clock.storeNow shard lane row item) :
    (reached calls).setLane (lane.poll.lease clock.storeNow row item) =
      reached (calls ++ [⟨clock, .operate (.next shard)⟩]) := by
  have hnext := congrArg Prod.snd h.next
  rw [reached_append]
  exact hnext.symm.trans (Answer.map_snd _ _).symm

/-- However an item that was claimed is settled later on, the store does it, unless something else
    was asked of it meanwhile. -/
theorem Claims.settles {calls : List (Call sharding)} {clock : Clock} {shard : Shard}
    {lane : Lane} {row : Row} {item : WorkItem}
    (h : (reached calls).Claims clock.storeNow shard lane row item) (later : Clock)
    (how : Settlement) :
    ∃ s', (how.operation item.id shard).run later
        ((reached calls).setLane (lane.poll.lease clock.storeNow row item)) = (.ok .done, s') ∧
      ((reached calls).setLane (lane.poll.lease clock.storeNow row item)).Settles
        (item.attempted clock.storeNow) later.storeNow how s' := by
  obtain ⟨hs, hsharding⟩ := reached_sound calls
  have hchange : ∀ f : Row → Row,
      (reached calls).setLane
          ((lane.poll.lease clock.storeNow row item).updateRow item.queueName f) =
        ((reached calls).setLane (lane.poll.lease clock.storeNow row item)).updateLane item.shard
          (·.updateRow item.queueName f) := by
    intro f
    rw [(h.isCandidate hs).shard]
    exact (updateLane_setLane (f := (·.updateRow item.queueName f)) _ _ rfl).symm
  cases how with
  | completed =>
    obtain ⟨-, lane', used, messages, -, -, hrun, -⟩ := h.complete_later hs later.storeNow
    refine ⟨(reached calls).replace lane' used messages, ?_, ?_⟩
    · show Answer.map _ (Store.complete later.storeNow item.id shard _) = _
      rw [hrun]
      rfl
    · have hitem := (h.isHead hs).1
      rw [h.reached_next] at hitem hrun ⊢
      exact settles_completed _ hitem hrun
  | failed =>
    have hrun := h.settleRow hs fun row =>
      { row with errorCount := row.errorCount + 1, lockedUntil := later.storeNow + failureBackoff }
    rw [hchange] at hrun
    refine ⟨_, ?_, .failed⟩
    exact congrArg (Answer.map fun _ => Operation.Value.done) hrun
  | delayed =>
    have hrun := h.settleRow hs fun row =>
      { row with errorCount := 0, lockedUntil := later.storeNow }
    rw [hchange] at hrun
    refine ⟨_, ?_, .delayed⟩
    exact congrArg (Answer.map fun _ => Operation.Value.done) hrun

end Store

/-! ### Executions -/

theorem Consumer.settle_run (c : Consumer) (clock : Clock) (id : WorkItemId) (outcome : Outcome)
    (s : Store) :
    c.settle clock id outcome s =
      ((outcome.settlement.operation id c.shard).run clock s).map fun _ =>
        decide (outcome.settlement ≠ .delayed) := by
  unfold Consumer.settle
  cases outcome with
  | complete status =>
    dsimp only [Outcome.settlement, Settlement.operation, Operation.run]
    rcases Backend.complete clock id c.shard s with ⟨e | value, s⟩ <;> rfl
  | delay status =>
    dsimp only [Outcome.settlement, Settlement.operation, Operation.run]
    rcases Backend.delay clock id c.shard s with ⟨e | value, s⟩ <;> rfl
  | fail failure =>
    dsimp only [Outcome.settlement, Settlement.operation, Operation.run]
    rcases Backend.fail clock id c.shard s with ⟨e | value, s⟩ <;> rfl

namespace Worker

variable {w : Worker} {last : Option (Except Error Bool)} {clock : Clock} {d : Depot Store}
variable {s' : Store} {item : WorkItem}

/-- Where nothing can be claimed, the shard is purged if a purge is due. -/
theorem round_of_nothing (hrest : w.stage = .resting last)
    (hnext : d.store.next clock.storeNow w.consumer.shard = (.ok none, s')) (reply : Reply)
    (later : Clock) :
    w.round reply clock later d =
      ({ w with
          consumer := (w.consumer.purge later s').2.1
          stage := .resting (some ((w.consumer.purge later s').1.map fun _ => false)) },
        { d with store := (w.consumer.purge later s').2.2 }) := by
  have hclaim : d.answer (w.consumer.claim clock) = (.ok none, { d with store := s' }) :=
    congrArg (fun answer : Answer Store (Option WorkItem) =>
      (answer.1, ({ d with store := answer.2 } : Depot Store))) hnext
  unfold round claim
  rw [hrest, hclaim]
  rfl

/-- What is claimed is settled as the response to its request demands. -/
theorem round_of_claimed (hrest : w.stage = .resting last)
    (hnext : d.store.next clock.storeNow w.consumer.shard = (.ok (some item), s'))
    (reply : Reply) (later : Clock) :
    ∃ how sending, w.config.Demands item reply how ∧ w.config.Sends item sending ∧
      let answer := (how.operation item.id w.consumer.shard).run later s'
      w.round reply clock later d =
        ({ w with stage := .resting (some (answer.1.map fun _ => decide (how ≠ .delayed))) },
          ⟨answer.2, sending ++ d.sent⟩) := by
  have hclaim : d.answer (w.consumer.claim clock) = (.ok (some item), { d with store := s' }) :=
    congrArg (fun answer : Answer Store (Option WorkItem) =>
      (answer.1, ({ d with store := answer.2 } : Depot Store))) hnext
  unfold round claim
  rw [hrest, hclaim]
  dsimp only
  cases hplace : item.isPlaceholder with
  | true =>
    have hsends : w.config.Sends item [] := .nothing fun _ hreal =>
      absurd (hplace.symm.trans hreal) (by decide)
    refine ⟨.completed, [], .placeholder hplace, hsends, ?_⟩
    simp only [respond, settle, hplace, if_true]
    dsimp only [Depot.answer, Settlement.operation, Operation.run]
    rcases Backend.complete later item.id w.consumer.shard s' with ⟨e | value, s⟩ <;> rfl
  | false =>
    obtain ⟨sending, hsent, hsends, hdemands⟩ := w.config.dispatch_spec reply d.sent hplace
    refine ⟨_, sending, hdemands, hsends, ?_⟩
    simp only [respond, settle, hplace, Dispatcher.dispatch, hsent, Bool.false_eq_true, if_false]
    dsimp only [Depot.answer]
    rw [Consumer.settle_run]
    rcases Operation.run later s' _ with ⟨e | value, s⟩ <;> rfl

/-- An execution that nothing comes between but time answers, and settles what it claims.  Where
    nothing can be claimed, it polls the shard, and purges it if that is due.  Otherwise it sends
    at most one request, settles the item as the response demands, and touches no other item and
    no other queue; it answers that more work is likely unless the item is delayed. -/
theorem settles_its_claim {sharding : Sharding} (calls : List (Store.Call sharding)) (c : Consumer)
    (hshard : c.shard ∈ sharding.shards) (config : DispatchConfig)
    (last : Option (Except Error Bool)) (reply : Reply) (sent : List Request)
    (clock later : Clock) :
    let s := Store.reached calls
    let after := (Worker.mk c config (.resting last)).round reply clock later ⟨s, sent⟩
    ∃ more, after.1.stage = .resting (some (.ok more)) ∧
      (later = clock → ∀ network : Network, (∀ request, network sent request = reply) →
        c.execute { config, network } clock ⟨s, sent⟩ =
          (.ok more, after.1.consumer, after.2)) ∧
      ((∃ lane, s.lane? c.shard = some lane ∧
          s.next clock.storeNow c.shard = (.ok none, s.setLane lane.poll) ∧
          more = false ∧ after.2.sent = sent ∧
          after.2.store = if c.purgeDue later then
            ((s.setLane lane.poll).purge later.storeNow c.shard).2 else s.setLane lane.poll) ∨
        ∃ item claimed how sending,
          s.next clock.storeNow c.shard = (.ok (some item), claimed) ∧
          claimed.IsHead item.queueRef c.shard item.id ∧
          config.Demands item reply how ∧ more = decide (how ≠ .delayed) ∧
          config.Sends item sending ∧ after.2.sent = sending ++ sent ∧
          claimed.Settles item later.storeNow how after.2.store ∧
          claimed.Confined item after.2.store) := by
  intro s after
  let w : Worker := ⟨c, config, .resting last⟩
  have hrest : w.stage = .resting last := rfl
  obtain ⟨hs, hsharding⟩ := Store.reached_sound calls
  have hexecute : ∀ more, after.1.stage = .resting (some (.ok more)) → later = clock →
      ∀ network : Network, (∀ request, network sent request = reply) →
        c.execute { config, network } clock ⟨s, sent⟩ =
          (.ok more, after.1.consumer, after.2) := by
    rintro more hmore rfl network hreply
    obtain ⟨answer, hanswer, hstage⟩ := round_execute hrest later (d := ⟨s, sent⟩) hreply
    obtain rfl : Except.ok more = answer :=
      Option.some.inj (Stage.resting.inj (hmore.symm.trans hstage))
    exact hanswer
  have hknown : c.shard ∈ s.sharding.shards := hsharding.symm ▸ hshard
  obtain ⟨lane, hl⟩ := hs.exists_lane hknown
  rcases Store.next_cases hs hl clock.storeNow with ⟨-, hnext⟩ | ⟨row, head, hclaims, hnext⟩
  · have hround : after = _ := round_of_nothing (d := ⟨s, sent⟩) hrest hnext reply later
    obtain ⟨removed, hpurge⟩ := Store.purge_polled hl later.storeNow
    have hstage : after.1.stage = .resting (some (.ok false)) := by
      rw [hround]
      dsimp only [Consumer.purge]
      rw [show Backend.purge later c.shard (s.setLane lane.poll) = _ from hpurge]
      split <;> rfl
    refine ⟨false, hstage, hexecute false hstage, Or.inl ⟨lane, hl, hnext, rfl, ?_, ?_⟩⟩
    · rw [hround]
    · rw [hround]
      dsimp only [Consumer.purge]
      rw [show Backend.purge later c.shard (s.setLane lane.poll) = _ from hpurge, hpurge]
      split <;> rfl
  · obtain ⟨how, sending, hdemands, hsends, hround⟩ :=
      round_of_claimed (d := ⟨s, sent⟩) hrest hnext reply later
    obtain ⟨s', hrun, hsettles⟩ := hclaims.settles later how
    have hconfined := (Store.knows_claimed calls (c := ⟨clock, .operate (.next c.shard)⟩) rfl
      (congrArg Prod.fst hnext)).confined (Store.reached_sound _).1 later
        (how.operation_mem_settlements head.id c.shard)
    rw [← hclaims.reached_next, hrun] at hconfined
    have hasked : (how.operation (head.attempted clock.storeNow).id w.consumer.shard).run later
        ((Store.reached calls).setLane (lane.poll.lease clock.storeNow row head)) =
          (.ok .done, s') := hrun
    rw [hasked] at hround
    have hafter : after = _ := hround
    have hstage : after.1.stage = .resting (some (.ok (decide (how ≠ .delayed)))) := by
      rw [hafter]
      rfl
    refine ⟨_, hstage, hexecute _ hstage, Or.inr ⟨_, _, how, sending, hnext,
      (hclaims.isHead hs).2, hdemands, rfl, hsends, ?_⟩⟩
    rw [hafter]
    exact ⟨rfl, hsettles, hconfined⟩

/-- An item that blocks another queue and puts a lock on its own is claimed, and an hour later its
    request is answered with a status that is configured as retryable: it is completed. -/
theorem retryable_success_completes :
    let calls : List (Store.Call .single) :=
      [⟨{ origin := ⟨10⟩ }, .operate (.enqueue ""
        { url := "http://h/1", queue := some "a", blocks := some "b",
          lockWhenComplete := some "gate" })⟩]
    let clock : Clock := { origin := ⟨20⟩ }
    let later : Clock := { origin := ⟨20⟩, uptime := leaseDuration }
    let w : Worker := ⟨{ shard := ⟨0, 1⟩ }, { retryStatusCodes := [204] }, .resting none⟩
    let after := w.round (.status 204) clock later ⟨Store.reached calls, []⟩
    ∃ item claimed, (Store.reached calls).next clock.storeNow ⟨0, 1⟩ = (.ok (some item), claimed) ∧
      after.1.stage = .resting (some (.ok true)) ∧
      claimed.Settles item later.storeNow .completed after.2.store := by
  intro calls clock later w after
  obtain ⟨more, hstage, -, hcase⟩ := settles_its_claim calls w.consumer (by decide) w.config none
    (.status 204) [] clock later
  have hnext : ((Store.reached calls).next clock.storeNow ⟨0, 1⟩).1.map
      (·.map fun item => (item.isPlaceholder, (w.config.request item).isOk)) =
        .ok (some (false, true)) := by decide +kernel
  rcases hcase with ⟨lane, -, hnone, -⟩ | ⟨item, claimed, how, sending, hsome, -, hdemands, rfl, -,
    -, hsettles, -⟩
  · rw [show (Store.reached calls).next clock.storeNow ⟨0, 1⟩ = _ from hnone] at hnext
    cases hnext
  · rw [show (Store.reached calls).next clock.storeNow ⟨0, 1⟩ = _ from hsome] at hnext
    obtain ⟨hreal, hok⟩ := Prod.mk.inj (Option.some.inj (Except.ok.inj hnext))
    obtain ⟨request, hrequest⟩ : ∃ request, w.config.request item = .ok request := by
      cases h : w.config.request item with
      | error failure =>
        rw [h] at hok
        cases hok
      | ok request => exact ⟨request, rfl⟩
    obtain rfl : how = .completed :=
      hdemands.completed_iff.2 (Or.inr ⟨204, ⟨hreal, ⟨request, hrequest⟩, rfl⟩, by decide⟩)
    exact ⟨item, claimed, hsome, hstage, hsettles⟩

end Worker

end Courier
