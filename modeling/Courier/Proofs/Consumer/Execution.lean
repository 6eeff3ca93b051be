/-
  Courier/Proofs/Consumer/Execution.lean
  ======================================
  **One execution of a consumer.**

  Over a sound store an execution always answers, and there are four things that it
  can come to (`Consumer.Work`): nothing can be claimed and the shard is left at
  rest, or the item that is claimed is completed, failed or delayed.  In the last
  three cases the item is spent (`Consumer.Work.unspent`), and only the first and
  the last answer that no more work is likely.
-/
import Courier.Consumer
import Courier.Proofs.Store.Unspent

namespace Courier

open Courier.Time

namespace Store

variable {s : Store} {now : Instant} {shard : Shard} {lane : Lane}

theorem purge_polled (hl : s.lane? shard = some lane) (now : Instant) :
    ∃ removed, (s.setLane lane.poll).purge now shard = (.ok removed, s.setLane
      { lane.poll with
        completed :=
          (purged (now - completedRetention) purgeBatchSize lane.poll.completed).1 }) := by
  have hfound : (s.setLane lane.poll).lane? shard = some lane.poll :=
    lane?_setLane_self hl (Lane.shard_poll lane)
  unfold purge withLane
  rw [hfound]
  exact ⟨_, congrArg (Prod.mk _) (setLane_setLane s rfl)⟩

end Store

theorem DispatchConfig.itemId_of_request {config : DispatchConfig} {item : WorkItem}
    {request : Request} (h : config.request item = .ok request) : request.itemId = item.id := by
  unfold DispatchConfig.request at h
  split at h
  · cases h
  · split at h
    · cases h
    · split at h
      · obtain rfl := Except.ok.inj h
        rfl
      · cases h

/-- Whether an item is requested and the response delays it. -/
def Dispatcher.Delays (dispatcher : Dispatcher) (d : Depot Store) (item : WorkItem) : Prop :=
  item.isPlaceholder = false ∧
    ∃ status, (dispatcher.config.dispatch dispatcher.network d.sent item).1 = .delay status

namespace Consumer

variable {dispatcher : Dispatcher} {clock : Clock} {now : Instant} {shard : Shard}
variable {d d' : Depot Store} {more : Bool}

/-! ### What an execution comes to -/

/-- What an execution for a shard comes to: whether more work is likely, and the depot after it. -/
inductive Work (dispatcher : Dispatcher) (now : Instant) (shard : Shard) (d : Depot Store) :
    Bool → Depot Store → Prop where
  | rest {lane : Lane} {completed : List CompletedItem} (here : d.store.lane? shard = some lane)
      (nothing : lane.poll.candidate? now = none)
      (kept : completed = lane.poll.completed ∨ completed =
        (Store.purged (now - completedRetention) purgeBatchSize lane.poll.completed).1) :
      Work dispatcher now shard d false
        { d with store := d.store.setLane { lane.poll with completed } }
  | complete {lane locked lane' : Lane} {row : Row} {item : WorkItem} {used : Int}
      {messages : List BlockingMessage} {sent : List Request}
      (claims : d.store.Claims now shard lane row item)
      (verdict : (item.isPlaceholder = true ∧ sent = d.sent) ∨
        (item.isPlaceholder = false ∧ ∃ status, dispatcher.config.dispatch dispatcher.network
          d.sent (item.attempted now) = (.complete status, sent)))
      (locks : Store.Locks (lane.poll.lease now row item) now (item.attempted now) locked)
      (step : locked.Step d.store.sharding now d.store.nextId (.completed (item.attempted now))
        lane' used messages)
      (moves : ∃ before, Store.Moves now d.store (before ++ [.completed (item.attempted now)])
        (d.store.replace lane' used messages) ∧ ∀ event ∈ before, event.Idle) :
      Work dispatcher now shard d true ⟨d.store.replace lane' used messages, sent⟩
  | fail {lane : Lane} {row : Row} {item : WorkItem} {failure : Failure} {sent : List Request}
      (claims : d.store.Claims now shard lane row item) (real : item.isPlaceholder = false)
      (verdict : dispatcher.config.dispatch dispatcher.network d.sent (item.attempted now) =
        (.fail failure, sent)) :
      Work dispatcher now shard d true
        ⟨d.store.setLane ((lane.poll.lease now row item).updateRow item.queueName
          (RowChange.fail.apply now)), sent⟩
  | delay {lane : Lane} {row : Row} {item : WorkItem} {status : Nat} {sent : List Request}
      (claims : d.store.Claims now shard lane row item) (real : item.isPlaceholder = false)
      (verdict : dispatcher.config.dispatch dispatcher.network d.sent (item.attempted now) =
        (.delay status, sent)) :
      Work dispatcher now shard d false
        ⟨d.store.setLane ((lane.poll.lease now row item).updateRow item.queueName
          (RowChange.delay.apply now)), sent⟩

/-- Claiming nothing leaves the shard at rest, purged if a purge is due. -/
theorem purge_rest (dispatcher : Dispatcher) (sent : List Request) {c : Consumer} {lane : Lane}
    {s : Store} (hl : s.lane? c.shard = some lane)
    (hnothing : lane.poll.candidate? clock.storeNow = none) :
    ∃ c' s', c.purge clock (s.setLane lane.poll) = (.ok (), c', s') ∧ c'.shard = c.shard ∧
      Work dispatcher clock.storeNow c.shard ⟨s, sent⟩ false ⟨s', sent⟩ := by
  unfold purge
  split
  · obtain ⟨removed, hrun⟩ := Store.purge_polled hl clock.storeNow
    rw [show Backend.purge clock c.shard (s.setLane lane.poll) = _ from hrun]
    exact ⟨_, _, rfl, rfl, .rest hl hnothing (Or.inr rfl)⟩
  · exact ⟨c, _, rfl, rfl, .rest hl hnothing (Or.inl rfl)⟩

/-- What is claimed is settled as its dispatch says, or completed if it is a placeholder. -/
theorem handle_claimed (dispatcher : Dispatcher) {c : Consumer} {lane : Lane} {row : Row}
    {item : WorkItem} (hs : d.store.Sound)
    (hclaims : d.store.Claims clock.storeNow c.shard lane row item) :
    ∃ more d', c.handle dispatcher clock (item.attempted clock.storeNow)
        { d with store := d.store.setLane (lane.poll.lease clock.storeNow row item) } =
          (.ok more, d') ∧
      Work dispatcher clock.storeNow c.shard d more d' := by
  obtain ⟨locked, lane', used, messages, hlocks, step, hrun, hmoves⟩ := hclaims.complete hs
  have hcomplete : Backend.complete clock (item.attempted clock.storeNow).id c.shard
      (d.store.setLane (lane.poll.lease clock.storeNow row item)) = (.ok (), _) := hrun
  unfold handle
  cases hplace : item.isPlaceholder with
  | true =>
    rw [if_pos (show (item.attempted clock.storeNow).isPlaceholder = true from hplace)]
    unfold Depot.answer
    dsimp only
    rw [hcomplete]
    exact ⟨_, _, rfl, .complete hclaims (Or.inl ⟨hplace, rfl⟩) hlocks step hmoves⟩
  | false =>
    rw [if_neg (show ¬ (item.attempted clock.storeNow).isPlaceholder = true by
      rw [show (item.attempted clock.storeNow).isPlaceholder = item.isPlaceholder from rfl, hplace]
      exact Bool.false_ne_true)]
    unfold Dispatcher.dispatch
    dsimp only
    cases hverdict : dispatcher.config.dispatch dispatcher.network d.sent
        (item.attempted clock.storeNow) with
    | mk outcome sent =>
      dsimp only
      unfold Depot.answer settle
      cases outcome with
      | complete status =>
        dsimp only
        rw [hcomplete]
        exact ⟨_, _, rfl,
          .complete hclaims (Or.inr ⟨hplace, status, hverdict⟩) hlocks step hmoves⟩
      | delay status =>
        have hdelay := hclaims.settleRow hs (RowChange.delay.apply clock.storeNow)
        have hdelay' : Backend.delay clock (item.attempted clock.storeNow).id c.shard
            (d.store.setLane (lane.poll.lease clock.storeNow row item)) = (.ok (), _) := hdelay
        dsimp only
        rw [hdelay']
        exact ⟨_, _, rfl, .delay hclaims hplace hverdict⟩
      | fail failure =>
        have hfail := hclaims.settleRow hs (RowChange.fail.apply clock.storeNow)
        have hfail' : Backend.fail clock (item.attempted clock.storeNow).id c.shard
            (d.store.setLane (lane.poll.lease clock.storeNow row item)) = (.ok (), _) := hfail
        dsimp only
        rw [hfail']
        exact ⟨_, _, rfl, .fail hclaims hplace hverdict⟩

/-- Over a sound store an execution for a shard of the deployment always answers. -/
theorem execute_works (c : Consumer) (dispatcher : Dispatcher) (clock : Clock)
    (hs : d.store.Sound) (hshard : c.shard ∈ d.store.sharding.shards) :
    ∃ more c' d', c.execute dispatcher clock d = (.ok more, c', d') ∧ c'.shard = c.shard ∧
      Work dispatcher clock.storeNow c.shard d more d' := by
  obtain ⟨lane, hl⟩ := hs.exists_lane hshard
  unfold execute Depot.answer claim
  rcases Store.next_cases hs hl clock.storeNow with ⟨hnothing, hrun⟩ | ⟨row, item, hclaims, hrun⟩
  · obtain ⟨c', s', hpurge, hsame, hwork⟩ := purge_rest dispatcher d.sent hl hnothing
    refine ⟨false, c', { d with store := s' }, ?_, hsame, hwork⟩
    rw [show Backend.next clock c.shard d.store = _ from hrun]
    dsimp only
    rw [hpurge]
    rfl
  · obtain ⟨more, d', hhandle, hwork⟩ := handle_claimed dispatcher hs hclaims
    refine ⟨more, c, d', ?_, rfl, hwork⟩
    rw [show Backend.next clock c.shard d.store = _ from hrun]
    dsimp only
    rw [hhandle]

/-! ### What an execution keeps -/

theorem Work.moves (h : Work dispatcher now shard d more d') :
    ∃ events, Store.Moves now d.store events d'.store := by
  cases h with
  | @rest lane completed here nothing kept =>
    obtain ⟨events, hpoll, -⟩ := Store.poll_idles here now
    rcases kept with rfl | rfl
    · exact ⟨events, hpoll⟩
    · obtain ⟨hmem, -⟩ := Store.mem_of_lane? here
      -- a purge follows the poll, and the two together replace the lane once
      have hpurge : Store.Move now (d.store.setLane lane.poll) (.purged lane.poll.shard) _ :=
        Store.Move.setLane (Store.mem_setLane hmem (Lane.shard_poll lane)) .purge
      have hset := Store.setLane_setLane d.store (a := lane.poll) (b := { lane.poll with
        completed := (Store.purged (now - completedRetention) purgeBatchSize
          lane.poll.completed).1 }) rfl
      exact ⟨_, hset ▸ hpoll.append (.single hpurge)⟩
  | complete claims verdict locks step moves =>
    obtain ⟨before, hmoves, -⟩ := moves
    exact ⟨_, hmoves⟩
  | fail claims real verdict => exact claims.change fun _ => trivial
  | delay claims real verdict => exact claims.change fun _ => trivial

theorem Work.sound (h : Work dispatcher now shard d more d') (hs : d.store.Sound) :
    d'.store.Sound ∧ d'.store.sharding = d.store.sharding := by
  obtain ⟨events, hmoves⟩ := h.moves
  exact ⟨hmoves.sound hs, hmoves.sharding⟩

/-- An execution that settles an item spends it, and any other spends nothing. -/
theorem Work.unspent (h : Work dispatcher now shard d more d') (hs : d.store.Sound) :
    (d'.store.unspent now).length + more.toNat ≤ (d.store.unspent now).length := by
  obtain ⟨hs', -⟩ := h.sound hs
  cases h with
  | @rest lane completed here nothing kept =>
    obtain ⟨hmem, -⟩ := Store.mem_of_lane? here
    have hpoll : (lane.poll.unspent now).length ≤ (lane.unspent now).length :=
      Lane.unspent_poll (hs.lane here)
    have hshard : ({ lane.poll with completed } : Lane).shard = lane.shard := Lane.shard_poll lane
    have hall := Store.length_unspent_replace hs hmem hshard now 0 []
    rw [Store.replace_zero_nil] at hall
    have hsame : ({ lane.poll with completed } : Lane).unspent now = lane.poll.unspent now := rfl
    rw [hsame] at hall
    have hle : ((d.store.setLane { lane.poll with completed }).unspent now).length ≤
        (d.store.unspent now).length := by omega
    exact hle
  | @complete lane locked lane' row item used messages sent claims verdict locks step moves =>
    have hshard : lane'.shard = lane.shard :=
      step.shard.trans (locks.shard.trans (Lane.shard_poll lane))
    exact claims.length_unspent_lt hs hshard
      (Lane.spends_complete (hs.lane claims.here).poll (claims.isCandidate hs) locks step) hs'
  | fail claims real verdict =>
    exact claims.length_unspent_change (c := .fail) hs (fun _ => trivial)
      fun _ => Lane.not_add_lt now (by decide)
  | delay claims real verdict =>
    exact Nat.le_of_lt (claims.length_unspent_change (c := .delay) hs (fun _ => trivial)
      fun _ => Int.lt_irrefl now.nanos)

/-- The answer of an execution tells whether it claimed an item that was not delayed. -/
theorem Work.more_iff (h : Work dispatcher now shard d more d') :
    more = true ↔ ∃ item, (d.store.next now shard).1 = .ok (some item) ∧
      ¬ dispatcher.Delays d item := by
  cases h with
  | rest here nothing kept =>
    refine ⟨fun hmore => absurd hmore Bool.false_ne_true, ?_⟩
    rintro ⟨item, hitem, -⟩
    rw [Store.next_of_nothing here nothing] at hitem
    cases hitem
  | complete claims verdict locks step moves =>
    refine iff_of_true rfl ⟨_, congrArg Prod.fst claims.next, ?_⟩
    rintro ⟨hreal, status, hdelay⟩
    rcases verdict with ⟨hplace, -⟩ | ⟨-, code, hcomplete⟩
    · exact Bool.false_ne_true (hreal.symm.trans hplace)
    · rw [hcomplete] at hdelay
      cases hdelay
  | fail claims real verdict =>
    refine iff_of_true rfl ⟨_, congrArg Prod.fst claims.next, ?_⟩
    rintro ⟨-, status, hdelay⟩
    rw [verdict] at hdelay
    cases hdelay
  | @delay lane row item status sent claims real verdict =>
    refine ⟨fun hmore => absurd hmore Bool.false_ne_true, ?_⟩
    rintro ⟨other, hother, hnot⟩
    rw [claims.next] at hother
    obtain rfl := Option.some.inj (Except.ok.inj hother)
    exact absurd ⟨real, status, congrArg Prod.fst verdict⟩ hnot

/-- An execution that answers that no more work is likely changes nothing but the lane of its
    shard, which is at rest unless the item that was claimed is delayed. -/
theorem Work.quiet (h : Work dispatcher now shard d false d') :
    ∃ lane lane', d.store.lane? shard = some lane ∧ lane'.shard = shard ∧
      d'.store = d.store.setLane lane' ∧
      (lane'.AtRest now ∨ ∃ item, (d.store.next now shard).1 = .ok (some item) ∧
        dispatcher.Delays d item) := by
  cases h with
  | @rest lane completed here nothing kept =>
    refine ⟨lane, { lane.poll with completed }, here, ?_, rfl, Or.inl ?_⟩
    · exact (Lane.shard_poll lane).trans (Store.mem_of_lane? here).2
    · have hrest := Lane.atRest_poll nothing
      exact ⟨hrest.linked, hrest.read, hrest.nothing⟩
  | @delay lane row item status sent claims real verdict =>
    refine ⟨lane, _, claims.here, ?_, rfl, Or.inr ⟨_, congrArg Prod.fst claims.next, real, ?_⟩⟩
    · exact (Lane.shard_poll lane).trans (Store.mem_of_lane? claims.here).2
    · exact ⟨status, congrArg Prod.fst verdict⟩

end Consumer

end Courier
