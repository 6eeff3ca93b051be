/-
  Courier/Proofs/Supervisor/Delivery.lean
  =======================================
  **A drain delivers what was filed.**

  While a store is undisturbed and every request is accepted, an execution of a
  consumer leaves its shard at rest or requests and completes one item that nothing
  blocks any more (`Consumer.Work.delivers`).  The items requested so far are the
  completed ones, and those of a queue are in the order of filing.  When a drain
  ends, all shards are at rest, so if the queues do not block one another in a
  circle, everything was delivered (`Supervisor.drain_delivers`).
-/
import Courier.Proofs.Store.Undisturbed
import Courier.Proofs.Supervisor.Drain

namespace Courier

open Courier.Time

/-! ### Requests that are accepted -/

/-- Whether the request for an item can be made, and is answered by a status of the 200s. -/
def Dispatcher.Accepts (dispatcher : Dispatcher) (item : WorkItem) : Prop :=
  ∃ request, dispatcher.config.request item = .ok request ∧
    ∀ sent, ∃ status, dispatcher.network sent request = .status status ∧
      200 ≤ status ∧ status < 300

/-- An item whose request is accepted is requested and completed. -/
theorem Dispatcher.Accepts.dispatch {dispatcher : Dispatcher} {item filed : WorkItem}
    (h : dispatcher.Accepts filed) (hof : item.IsOf filed) (sent : List Request) :
    ∃ status request, request.itemId = item.id ∧
      dispatcher.config.dispatch dispatcher.network sent item =
        (.complete status, request :: sent) := by
  obtain ⟨request, hrequest, hanswer⟩ := h
  obtain ⟨status, hstatus, hok⟩ := hanswer sent
  have hsame : dispatcher.config.request item = .ok request := by
    unfold DispatchConfig.request at hrequest ⊢
    rw [hof.url, hof.id]
    exact hrequest
  refine ⟨status, request, DispatchConfig.itemId_of_request hsame, ?_⟩
  unfold DispatchConfig.dispatch
  rw [hsame]
  dsimp only
  rw [hstatus]
  unfold DispatchConfig.settle DispatchConfig.classify
  dsimp only
  rw [if_pos hok]

/-- Whether items that were filed can be delivered at an instant, one by one. -/
structure Deliverable (dispatcher : Dispatcher) (now : Instant) (filings : List WorkItem) :
    Prop where
  distinct : (filings.map (·.id)).Nodup
  plain : ∀ filed ∈ filings, filed.IsPlain now
  accepted : ∀ filed ∈ filings, dispatcher.Accepts filed

variable {dispatcher : Dispatcher} {now : Instant} {shard : Shard} {filings : List WorkItem}
variable {d d' : Depot Store} {item filed : WorkItem}

/-- The number of an item tells in which queue it was filed. -/
theorem Deliverable.mem_numbersIn (hf : Deliverable dispatcher now filings)
    (hfiled : filed ∈ filings) (hof : item.IsOf filed) (queue : QueueRef) :
    item.id ∈ numbersIn queue filings ↔ item.queueRef = queue := by
  unfold numbersIn
  constructor
  · intro hid
    obtain ⟨other, ho, hsame⟩ := List.mem_map.1 hid
    obtain ⟨hother, hqueue⟩ := List.mem_filter.1 ho
    obtain rfl := Keyed.eq_of_mem hf.distinct hother hfiled (hsame.trans hof.id)
    exact hof.queueRef.trans (of_decide_eq_true hqueue).1
  · intro hqueue
    refine List.mem_map.2 ⟨filed, List.mem_filter.2 ⟨hfiled, decide_eq_true ?_⟩, hof.id.symm⟩
    exact ⟨hof.queueRef.symm.trans hqueue, (hf.plain filed hfiled).real⟩

theorem Deliverable.numbersIn_of (hf : Deliverable dispatcher now filings) {items : List WorkItem}
    (hof : ∀ item ∈ items, ∃ filed ∈ filings, item.IsOf filed) (queue : QueueRef) :
    numbersIn queue items =
      (items.map (·.id)).filter (· ∈ numbersIn queue filings) := by
  rw [List.filter_map]
  refine congrArg (List.map WorkItem.id) (List.filter_congr fun item hi => ?_)
  obtain ⟨filed, hfiled, hitem⟩ := hof item hi
  have hreal := ((hf.plain filed hfiled).of hitem).real
  rw [Function.comp_apply, decide_eq_decide, hf.mem_numbersIn hfiled hitem queue]
  exact and_iff_left hreal

/-! ### Depots that deliver -/

/-- What is known of a depot while what was filed is being delivered. -/
structure Depot.Delivering (now : Instant) (filings : List WorkItem) (d : Depot Store) : Prop where
  sound : d.store.Sound
  balanced : d.store.Balanced
  lanes : ∀ lane ∈ d.store.lanes, lane.Undisturbed filings now
  ids : d.store.ids.Perm (filings.map (·.id))
  /-- What was requested is what is completed. -/
  requested : (d.sent.map (·.itemId)).Perm d.store.completedIds
  /-- Of each queue the requested items come before the pending ones, in the order of filing. -/
  order : ∀ queue, (d.sent.reverse.map (·.itemId)).filter (· ∈ numbersIn queue filings) ++
    d.store.line queue = numbersIn queue filings

/-- Moves that archive what was requested, and otherwise idle, keep a depot delivering. -/
theorem Depot.Delivering.step {lane lane' : Lane} {messages : List BlockingMessage}
    {events : List Event} {done : List CompletedItem} (h : d.Delivering now filings)
    (hf : Deliverable dispatcher now filings) (mem : lane ∈ d.store.lanes)
    (hshard : lane'.shard = lane.shard) (hlane : lane'.Undisturbed filings now)
    (hcompleted : lane'.completed = lane.completed ++ done)
    (moves : Store.Moves now d.store events (d.store.replace lane' 0 messages))
    (hevents : ∀ event ∈ events, event.Idle ∨ ∃ item, event = .completed item)
    (hretired : events.flatMap (·.retired) = done.map (·.item)) {sent : List Request}
    (hsent : sent.map (·.itemId) = (done.map (·.item.id)).reverse ++ d.sent.map (·.itemId)) :
    Depot.Delivering now filings ⟨d.store.replace lane' 0 messages, sent⟩ := by
  have hsilent : ∀ event ∈ events, (∀ queue, event.filedIn queue = []) ∧ event ≠ .cleared ∧
      ∀ shard, event ≠ .purged shard := by
    intro event he
    rcases hevents event he with hidle | ⟨item, rfl⟩
    · have htold := hidle.silent.tells_nothing
      refine ⟨fun queue => (htold queue).1, (htold default).2.2.2, ?_⟩
      rintro shard rfl
      exact hidle
    · exact ⟨fun queue => rfl, nofun, nofun⟩
  have hclear : Event.cleared ∉ events := fun he => (hsilent _ he).2.1 rfl
  constructor
  case sound => exact moves.sound h.sound
  case balanced => exact moves.keeps (fun hs move hb => move.balanced hs hb) h.sound h.balanced
  case lanes =>
    intro other ho
    obtain ⟨old, hold, rfl⟩ := Store.mem_replace.1 ho
    split
    · exact hlane.receive messages
    · exact (h.lanes old hold).receive messages
  case ids =>
    have hids := moves.ids h.sound (fun event he => (hsilent event he).2.2) hclear
    rw [show (d.store.replace lane' 0 messages).nextId = d.store.nextId from Int.add_zero _,
      range_self, List.append_nil] at hids
    exact hids.trans h.ids
  case requested =>
    have hdone : (d.store.replace lane' 0 messages).completedIds.Perm
        (d.store.completedIds ++ done.map (·.item.id)) :=
      Store.completedIds_replace h.sound mem hshard hcompleted
    show (sent.map (·.itemId)).Perm _
    rw [hsent]
    calc (done.map (·.item.id)).reverse ++ d.sent.map (·.itemId)
        _ |>.Perm (done.map (·.item.id) ++ d.store.completedIds) :=
          (List.reverse_perm _).append h.requested
        _ |>.Perm (d.store.completedIds ++ done.map (·.item.id)) := List.perm_append_comm
        _ |>.Perm _ := hdone.symm
  case order =>
    -- what a line loses at its front is what the requests gain at their end
    intro queue
    have hline := moves.line h.sound hclear queue
    have hof : ∀ item ∈ done.map (·.item), ∃ filed ∈ filings, item.IsOf filed := by
      intro item hi
      obtain ⟨archived, ha, rfl⟩ := List.mem_map.1 hi
      refine hlane.origin archived.item (Lane.mem_held.2 (Or.inr ⟨archived, ?_, rfl⟩))
      rw [hcompleted]
      exact List.mem_append_right _ ha
    rw [List.flatMap_eq_nil_iff.2 fun event he => (hsilent event he).1 queue, List.append_nil,
      hretired, hf.numbersIn_of hof queue, List.map_map] at hline
    show (sent.reverse.map (·.itemId)).filter (· ∈ numbersIn queue filings) ++ _ = _
    rw [List.map_reverse, hsent, List.reverse_append, List.reverse_reverse, ← List.map_reverse,
      List.filter_append, List.append_assoc]
    exact (congrArg _ hline.symm).trans (h.order queue)

theorem Depot.Delivering.poll (h : d.Delivering now filings)
    (hf : Deliverable dispatcher now filings) {lane : Lane}
    (hl : d.store.lane? shard = some lane) : lane.poll.Undisturbed filings now :=
  (h.lanes lane (Store.mem_of_lane? hl).1).poll (h.sound.lane hl) hf.plain

/-- What is handed out is one of the items that were filed. -/
theorem Depot.Delivering.of_next (h : d.Delivering now filings)
    (hf : Deliverable dispatcher now filings)
    (hnext : (d.store.next now shard).1 = .ok (some item)) :
    ∃ filed ∈ filings, item.IsOf filed := by
  obtain ⟨lane, row, head, hl, -, hhead, rfl, -⟩ := Store.next_eq_some h.sound hnext
  obtain ⟨filed, hfiled, hof⟩ := (h.poll hf hl).origin head (Lane.mem_held.2 (Or.inl hhead.item))
  exact ⟨filed, hfiled, (WorkItem.Continues.attempted _ head now).trans hof⟩

theorem Depot.Delivering.not_delayed (h : d.Delivering now filings)
    (hf : Deliverable dispatcher now filings)
    (hnext : (d.store.next now shard).1 = .ok (some item)) : ¬ dispatcher.Delays d item := by
  rintro ⟨-, code, hdelay⟩
  obtain ⟨filed, hfiled, hof⟩ := h.of_next hf hnext
  obtain ⟨status, request, -, hverdict⟩ := (hf.accepted filed hfiled).dispatch hof d.sent
  rw [hverdict] at hdelay
  cases hdelay

/-- What blocked the queue of an item is completed when the item is handed out. -/
theorem Depot.Delivering.unblocked (h : d.Delivering now filings)
    (hf : Deliverable dispatcher now filings)
    (hnext : (d.store.next now shard).1 = .ok (some item)) (hfiled : filed ∈ filings)
    (hblocks : filed.blocking = .queue item.queueRef) : filed.id ∈ d.store.completedIds := by
  have hid : filed.id ∈ d.store.held.map (·.id) := by
    rw [← Store.ids_eq_held]
    exact h.ids.mem_iff.2 (List.mem_map_of_mem hfiled)
  obtain ⟨held, hheld, hsame⟩ := List.mem_map.1 hid
  obtain ⟨lane, hl, hheld⟩ := Store.mem_held.1 hheld
  rcases Lane.mem_held.1 hheld with hpending | ⟨done, hd, rfl⟩
  · obtain ⟨other, ho, hof⟩ := (h.lanes lane hl).origin held hheld
    obtain rfl := Keyed.eq_of_mem hf.distinct ho hfiled (hof.id.symm.trans hsame)
    have hout : d.store.IsOutstanding item.queueRef held.token :=
      ⟨lane, hl, held, hpending, hof.blocking.trans hblocks, rfl⟩
    exact absurd hout (h.balanced.not_isOutstanding_of_next h.sound hnext _)
  · exact List.mem_flatMap.2 ⟨lane, hl, List.mem_map.2 ⟨done, hd, hsame⟩⟩

/-- A poll that finds nothing to hand out keeps a depot delivering, and a purge adds nothing to
    it. -/
theorem Depot.Delivering.rest {lane : Lane} {completed : List CompletedItem}
    (h : d.Delivering now filings) (hf : Deliverable dispatcher now filings)
    (here : d.store.lane? shard = some lane)
    (kept : completed = lane.poll.completed ∨ completed =
      (Store.purged (now - completedRetention) purgeBatchSize lane.poll.completed).1) :
    Depot.Delivering now filings
      { d with store := d.store.setLane { lane.poll with completed } } := by
  obtain ⟨hmem, -⟩ := Store.mem_of_lane? here
  have hpoll := h.poll hf here
  obtain rfl : completed = lane.poll.completed := by
    rcases kept with hsame | hpurged
    · exact hsame
    · exact hpurged.trans (hpoll.not_purged _)
  obtain ⟨events, hmoves, hidle⟩ := Store.poll_idles here now
  rw [← Store.replace_zero_nil] at hmoves
  have hretired : events.flatMap (·.retired) = [] :=
    (Store.flatMap_silent (fun event he => (hidle event he).silent) default).2
  have hnone : lane.poll.completed = lane.completed ++ [] := by
    rw [Lane.completed_poll, List.append_nil]
  have hstep := h.step hf hmem (Lane.shard_poll lane) hpoll hnone hmoves
    (fun event he => Or.inl (hidle event he)) hretired rfl
  rwa [Store.replace_zero_nil] at hstep

/-- Completing what was handed out and requested keeps a depot delivering. -/
theorem Depot.Delivering.complete {lane locked lane' : Lane} {row : Row} {used : Int}
    {messages : List BlockingMessage} {request : Request} (h : d.Delivering now filings)
    (hf : Deliverable dispatcher now filings) (claims : d.store.Claims now shard lane row item)
    (locks : Store.Locks (lane.poll.lease now row item) now (item.attempted now) locked)
    (step : locked.Step d.store.sharding now d.store.nextId (.completed (item.attempted now))
      lane' used messages)
    (moves : ∃ before, Store.Moves now d.store (before ++ [.completed (item.attempted now)])
      (d.store.replace lane' used messages) ∧ ∀ event ∈ before, event.Idle)
    (hrequest : request.itemId = item.id) :
    Depot.Delivering now filings ⟨d.store.replace lane' used messages, request :: d.sent⟩ := by
  obtain ⟨hmem, -⟩ := Store.mem_of_lane? claims.here
  have hpoll := h.poll hf claims.here
  have hshard : lane'.shard = lane.shard :=
    step.shard.trans (locks.shard.trans (Lane.shard_poll lane))
  obtain ⟨hlane, rfl, harchived⟩ := hpoll.complete (h.sound.lane claims.here).poll hf.plain
    (claims.isCandidate h.sound) locks step
  rw [Lane.completed_poll] at harchived
  obtain ⟨before, hmoves, hidle⟩ := moves
  have hretired : (before ++ [Event.completed (item.attempted now)]).flatMap (·.retired) =
      [item.attempted now] := by
    rw [List.flatMap_append,
      (Store.flatMap_silent (fun event he => (hidle event he).silent) default).2]
    rfl
  refine h.step hf hmem hshard hlane harchived hmoves (fun event he => ?_) hretired ?_
  · rcases List.mem_append.1 he with he | he
    · exact Or.inl (hidle event he)
    · exact Or.inr ⟨_, List.mem_singleton.1 he⟩
  · show request.itemId :: _ = [(item.attempted now).id] ++ _
    rw [hrequest]
    rfl

/-- An execution settles nothing and requests nothing, or it requests and completes one item that
    nothing blocks any more. -/
theorem Consumer.Work.delivers {more : Bool} (h : Consumer.Work dispatcher now shard d more d')
    (hd : d.Delivering now filings) (hf : Deliverable dispatcher now filings) :
    d'.Delivering now filings ∧ ((more = false ∧ d'.sent = d.sent) ∨
      (more = true ∧ ∃ item ∈ filings, ∃ request, request.itemId = item.id ∧
        d'.sent = request :: d.sent ∧ ∀ blocker ∈ filings, blocker.blocking = .queue item.queueRef →
          blocker.id ∈ d.store.completedIds)) := by
  cases h with
  | rest here nothing kept => exact ⟨hd.rest hf here kept, Or.inl ⟨rfl, rfl⟩⟩
  | @complete lane locked lane' row item used messages sent claims verdict locks step moves =>
    have hnext : (d.store.next now shard).1 = .ok (some (item.attempted now)) :=
      congrArg Prod.fst claims.next
    obtain ⟨filed, hfiled, hof⟩ := hd.of_next hf hnext
    obtain ⟨status, request, hid, hverdict⟩ := (hf.accepted filed hfiled).dispatch hof d.sent
    obtain rfl : sent = request :: d.sent := by
      -- a placeholder would be completed without a request, but nothing that was filed is one
      rcases verdict with ⟨hplace, -⟩ | ⟨-, code, hcode⟩
      · have hreal := ((hf.plain filed hfiled).of hof).real
        exact absurd (hreal.symm.trans hplace) Bool.false_ne_true
      · rw [hcode] at hverdict
        exact congrArg Prod.snd hverdict
    refine ⟨hd.complete hf claims locks step moves hid,
      Or.inr ⟨rfl, filed, hfiled, request, hid.trans hof.id, rfl, ?_⟩⟩
    intro blocker hb hblocks
    exact hd.unblocked hf hnext hb (hblocks.trans (congrArg Blocking.queue hof.queueRef.symm))
  | @fail lane row item failure sent claims real verdict =>
    obtain ⟨filed, hfiled, hof⟩ := hd.of_next hf (congrArg Prod.fst claims.next)
    obtain ⟨status, request, -, hverdict⟩ := (hf.accepted filed hfiled).dispatch hof d.sent
    rw [verdict] at hverdict
    cases hverdict
  | @delay lane row item status sent claims real verdict =>
    refine absurd ⟨real, status, ?_⟩ (hd.not_delayed hf (congrArg Prod.fst claims.next))
    exact congrArg Prod.fst verdict

/-! ### Drains that deliver -/

/-- Whether a turn requested nothing, or one of the items that were filed after all that blocked
    its queue was completed. -/
def Turn.Delivers (filings : List WorkItem) (turn : Turn Store) : Prop :=
  (turn.more = false ∧ turn.after.depot.sent = turn.before.depot.sent) ∨
  (turn.more = true ∧ ∃ item ∈ filings, ∃ request, request.itemId = item.id ∧
    turn.after.depot.sent = request :: turn.before.depot.sent ∧
    ∀ blocker ∈ filings, blocker.blocking = .queue item.queueRef →
      blocker.id ∈ turn.before.store.completedIds)

namespace Supervisor

variable {s s' : Supervisor Store} {turns : List (Turn Store)}

theorem Runs.delivers (h : Runs s turns s') (hs : s.Serves)
    (hd : s.depot.Delivering s.clock.storeNow filings)
    (hf : Deliverable s.settings.dispatcher s.clock.storeNow filings) :
    s'.depot.Delivering s.clock.storeNow filings ∧ ∀ turn ∈ turns, turn.Delivers filings ∧
      ∀ shard item, turn.Claims shard item → ¬ turn.Delays item := by
  obtain ⟨-, ⟨-, hd'⟩, hturns⟩ := h.keeps (P := fun t => (t.clock = s.clock ∧
      t.settings = s.settings) ∧ t.depot.Delivering s.clock.storeNow filings) hs
    (fun {t t' i shard more} ht hworks hp => by
      obtain ⟨⟨hclock, hsettings⟩, hdt⟩ := hp
      have hwork := hworks.work
      rw [hclock, hsettings] at hwork
      exact ⟨⟨hworks.clock.trans hclock, hworks.settings.trans hsettings⟩,
        (hwork.delivers hdt hf).1⟩)
    ⟨⟨rfl, rfl⟩, hd⟩
  refine ⟨hd', fun turn ht => ?_⟩
  obtain ⟨-, ⟨⟨hclock, hsettings⟩, hdt⟩, shard, hworks⟩ := hturns turn ht
  have hwork := hworks.work
  rw [hclock, hsettings] at hwork
  refine ⟨(hwork.delivers hdt hf).2, fun shard item hclaims => ?_⟩
  unfold Turn.Claims at hclaims
  unfold Turn.Delays
  rw [hclock] at hclaims
  rw [hsettings]
  exact hdt.not_delayed hf hclaims

/-- Each turn that settles something sends one request. -/
theorem Runs.length_sent (h : Runs s turns s') (hturns : ∀ turn ∈ turns, turn.Delivers filings) :
    s'.depot.sent.length = s.depot.sent.length + Turn.settled turns := by
  induction h with
  | nil s => rfl
  | @cons s s₁ s' i more rest known run _ ih =>
    have hrest := ih fun turn ht => hturns turn (List.mem_cons_of_mem _ ht)
    have hcount : Turn.settled (⟨i, s, more, s₁⟩ :: rest) = more.toNat + Turn.settled rest := by
      rw [← Turn.settled_singleton ⟨i, s, more, s₁⟩, ← Turn.settled_append]
      rfl
    rcases hturns _ List.mem_cons_self with ⟨hmore, hsent⟩ | ⟨hmore, item, -, request, -, hsent, -⟩
    · have hsame : s₁.depot.sent = s.depot.sent := hsent
      rw [hrest, hcount, hsame, show more = false from hmore]
      exact congrArg _ (Nat.zero_add _).symm
    · have hadded : s₁.depot.sent = request :: s.depot.sent := hsent
      rw [hrest, hcount, hadded, show more = true from hmore, List.length_cons]
      exact Nat.add_assoc ..

/-- A drain of a service over a new store in which items were only filed, at an instant after all
    of them, completes every one of them, if each request is accepted and the queues do not block
    one another in a circle. -/
theorem drain_delivers {sharding : Sharding} {calls : List (Store.Call sharding)}
    (hcalls : ∀ c ∈ calls, c.OnlyFiles) {settings : ServiceSettings} {clock : Clock}
    (hearly : ∀ item ∈ Store.filed calls, item.createdAt < clock.storeNow)
    (haccepted : ∀ item ∈ Store.filed calls, settings.dispatcher.Accepts item)
    (hacyclic : ∀ name, ¬ Relation.TransGen (BlockedIn (Store.filed calls)) name name)
    (start : Clock) :
    ∃ turns s', ((create settings start (Store.reached calls)).withClock clock).drain =
        (.ok (Store.filed calls).length, s') ∧
      Runs ((create settings start (Store.reached calls)).withClock clock) turns s' ∧
      ((Store.filed calls).map (·.id)).Nodup ∧
      (s'.depot.sent.map (·.itemId)).Perm ((Store.filed calls).map (·.id)) ∧
      s'.store.completedIds.Perm ((Store.filed calls).map (·.id)) ∧
      (∀ queue, (s'.depot.sent.reverse.map (·.itemId)).filter
        (· ∈ numbersIn queue (Store.filed calls)) = numbersIn queue (Store.filed calls)) ∧
      (∀ turn ∈ turns, turn.Delivers (Store.filed calls)) ∧
      ∀ lane ∈ s'.store.lanes,
        lane.items = [] ∧ lane.rows = [] ∧ lane.blocks = [] ∧ lane.mailbox = [] := by
  let s : Supervisor Store := (create settings start (Store.reached calls)).withClock clock
  obtain ⟨hsound, hsharding⟩ := Store.reached_sound calls
  have hfiled := Store.justFiled_reached hcalls
  have hs : s.Serves := by
    refine ⟨hsound, ?_⟩
    show (List.map _ _).map _ = _
    rw [List.map_map]
    exact List.map_id' _
  have hf : Deliverable settings.dispatcher clock.storeNow (Store.filed calls) :=
    { distinct := Store.distinct_filed calls
      plain := fun item hi =>
        ⟨(hfiled.plain item hi).1, (hfiled.plain item hi).2, hearly item hi⟩
      accepted := haccepted }
  have hd : s.depot.Delivering clock.storeNow (Store.filed calls) :=
    { sound := hsound
      balanced := Store.reached_balanced calls
      lanes := hfiled.undisturbed
      ids := Store.ids_justFiled hcalls
      requested := .of_eq hfiled.completedIds.symm
      order := Store.line_justFiled hcalls }
  obtain ⟨turns, last, s', hrun, hruns, -, hlast, hrests⟩ := hs.drain_rests
  obtain ⟨⟨hs', -, hsame⟩, -⟩ := hruns.serves hs
  obtain ⟨hd', hturns⟩ := hruns.delivers hs hd hf
  -- no turn delays an item, so the last turn for a shard leaves it at rest
  have hrest : ∀ lane ∈ s'.store.lanes, lane.AtRest clock.storeNow := by
    intro lane hl
    have hshard : lane.shard ∈ s.store.sharding.shards := by
      rw [← hsame, ← hs'.sound.shards]
      exact List.mem_map_of_mem hl
    obtain ⟨i, hi⟩ := List.getElem?_of_mem hshard
    obtain ⟨turn, ht, -, ⟨other, ho, hother⟩ | ⟨item, hclaims, hdelays⟩⟩ := hrests i lane.shard hi
    · rw [hs'.sound.lane?_of_mem hl] at ho
      exact Option.some.inj ho ▸ hother
    · exact absurd hdelays ((hturns turn (List.mem_append_right _ ht)).2 _ item hclaims)
  have hnone : ∀ lane ∈ s'.store.lanes, lane.items = [] :=
    Store.nothing_pending_of_atRest hd'.sound hd'.balanced
      (fun lane hl => ⟨hd'.lanes lane hl, hrest lane hl⟩) hacyclic
  have hcompleted : s'.store.completedIds.Perm ((Store.filed calls).map (·.id)) := by
    have hpending : s'.store.pendingIds = [] :=
      List.flatMap_eq_nil_iff.2 fun lane hl => by rw [hnone lane hl]; rfl
    have hall := s'.store.ids_perm
    rw [hpending, List.nil_append] at hall
    exact hall.trans hd'.ids
  have hrequested := hd'.requested.trans hcompleted
  refine ⟨turns ++ last, s', ?_, hruns, hf.distinct, hrequested, hcompleted, fun queue => ?_,
    fun turn ht => (hturns turn ht).1, ?_⟩
  · have hsent : s'.depot.sent.length = 0 + Turn.settled (turns ++ last) :=
      hruns.length_sent fun turn ht => (hturns turn ht).1
    have hlength := hrequested.length_eq
    rw [List.length_map, List.length_map, hsent, Nat.zero_add] at hlength
    rw [← hlength]
    exact hrun
  · have horder := hd'.order queue
    rw [show s'.depot.store.line queue = [] from Store.line_eq_nil hnone queue,
      List.append_nil] at horder
    exact horder
  · exact fun lane hl =>
      Store.empty_of_nothing_pending hd'.sound hd'.balanced hnone hl (hrest lane hl)

/-- A queue on one of two shards is blocked by an item of a queue on the other. -/
def blockedAcrossShards : List (Store.Call { count := 2 }) :=
  [⟨{ origin := ⟨10⟩ },
      .operate (.enqueue "" { url := "http://h/1", queue := some "b", blocks := some "a" })⟩,
   ⟨{ origin := ⟨11⟩ }, .operate (.enqueue "" { url := "http://h/2", queue := some "a" })⟩,
   ⟨{ origin := ⟨12⟩ }, .operate (.enqueue "" { url := "http://h/3", queue := some "a" })⟩]

/-- Every request is answered by 200. -/
def accepting : ServiceSettings := { dispatcher := { network := fun _ _ => .status 200 } }

theorem drain_delivers_across_shards :
    (∀ c ∈ blockedAcrossShards, c.OnlyFiles) ∧
    (∀ item ∈ Store.filed blockedAcrossShards, item.createdAt < (⟨13⟩ : Instant)) ∧
    (∀ item ∈ Store.filed blockedAcrossShards, accepting.dispatcher.Accepts item) ∧
    (∀ name, ¬ Relation.TransGen (BlockedIn (Store.filed blockedAcrossShards)) name name) ∧
    ∃ turns s', ((create accepting { origin := ⟨0⟩ } (Store.reached blockedAcrossShards)).withClock
        { origin := ⟨13⟩ }).drain = (.ok 3, s') ∧
      Runs ((create accepting { origin := ⟨0⟩ } (Store.reached blockedAcrossShards)).withClock
        { origin := ⟨13⟩ }) turns s' ∧
      s'.store.completedIds.Perm [1, 2, 3] := by
  have hids : (Store.filed blockedAcrossShards).map (·.id) = [1, 2, 3] := by decide +kernel
  have hcalls : ∀ c ∈ blockedAcrossShards, c.OnlyFiles := by
    intro c hc
    simp only [blockedAcrossShards, List.mem_cons, List.not_mem_nil, or_false] at hc
    rcases hc with rfl | rfl | rfl <;> exact ⟨_, _, rfl, rfl⟩
  have hearly : ∀ item ∈ Store.filed blockedAcrossShards, item.createdAt < (⟨13⟩ : Instant) := by
    decide +kernel
  have hearly' : ∀ item ∈ Store.filed blockedAcrossShards,
      item.createdAt < ({ origin := ⟨13⟩ } : Clock).storeNow := hearly
  have haccepted : ∀ item ∈ Store.filed blockedAcrossShards,
      accepting.dispatcher.Accepts item := by
    have hsendable : ∀ item ∈ Store.filed blockedAcrossShards,
        (accepting.dispatcher.config.request item).toOption.isSome = true := by decide +kernel
    intro item hi
    cases hrequest : accepting.dispatcher.config.request item with
    | error failure =>
      have hsome := hsendable item hi
      rw [hrequest] at hsome
      cases hsome
    | ok request => exact ⟨request, hrequest, fun sent => ⟨200, rfl, by decide, by decide⟩⟩
  have hedges : ∀ name target, BlockedIn (Store.filed blockedAcrossShards) name target →
      name = "b" ∧ target = "a" := by
    have hblocks : ∀ item ∈ Store.filed blockedAcrossShards, item.blocking = .none ∨
        (item.queueName = "b" ∧ item.blocking = .queue ⟨"a", ⟨0, 2⟩⟩) := by decide +kernel
    rintro name target ⟨item, hi, rfl, queue, hqueue, rfl⟩
    rcases hblocks item hi with hnone | ⟨hname, hblocking⟩
    · rw [hnone] at hqueue
      cases hqueue
    · rw [hblocking] at hqueue
      cases hqueue
      exact ⟨hname, rfl⟩
  have hacyclic : ∀ name,
      ¬ Relation.TransGen (BlockedIn (Store.filed blockedAcrossShards)) name name := by
    intro name hcircle
    obtain ⟨first, hfirst, -⟩ := Relation.TransGen.head'_iff.1 hcircle
    obtain ⟨last, -, hlast⟩ := Relation.TransGen.tail'_iff.1 hcircle
    have hname := (hedges name first hfirst).1.symm.trans (hedges last name hlast).2
    exact absurd hname (by decide)
  obtain ⟨turns, s', hrun, hruns, -, -, hcompleted, -⟩ :=
    drain_delivers hcalls hearly' haccepted hacyclic { origin := ⟨0⟩ }
  have hlength : (Store.filed blockedAcrossShards).length = 3 := by
    rw [← List.length_map (f := (·.id)), hids]
    rfl
  rw [hlength] at hrun
  rw [hids] at hcompleted
  exact ⟨hcalls, hearly, haccepted, hacyclic, turns, s', hrun, hruns, hcompleted⟩

end Supervisor

end Courier
