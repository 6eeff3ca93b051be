/-
  Courier/Proofs/Store/Response.lean
  ==================================
  **What an operation on a shard reads and writes.**

  All operations but the filing of items and the clearing of the store are about one
  shard.  `Lane.respond` gives the answer of such an operation, the lane that it
  leaves, how many item numbers it uses up and what it posts, from that lane and the
  next number alone, and this is all that the operation does to a store
  (`Operation.run_eq_take`).
-/
import Courier.Proofs.Store.Renumber

namespace Courier

open Courier.Time

/-- The shard that an operation is about; those that file an item or clear the store are about
    none. -/
def Operation.shard? : Operation → Option Shard
  | .enqueue _ _ => none
  | .next shard => some shard
  | .complete _ shard => some shard
  | .fail _ shard => some shard
  | .delay _ shard => some shard
  | .purge shard => some shard
  | .pause queue => some queue.shard
  | .resume queue => some queue.shard
  | .reset queue => some queue.shard
  | .lock queue _ => some queue.shard
  | .unlock queue _ => some queue.shard
  | .clear => none

/-! ### Responses of a lane -/

/-- A store without items whose next item number is the given one. -/
def Store.numbering (fresh : WorkItemId) : Store := { Store.empty .single with nextId := fresh }

namespace Lane

/-- What comes of an operation on a lane. -/
structure Response where
  answer : Except Error Operation.Value
  lane : Lane
  /-- How many item numbers are used up. -/
  used : Int
  messages : List BlockingMessage

namespace Response

/-- A response that neither uses up a number nor posts anything. -/
def plain (answer : Except Error Operation.Value) (lane : Lane) : Response := ⟨answer, lane, 0, []⟩

/-- A response after which messages arrive at the lane. -/
def receive (response : Response) (messages : List BlockingMessage) : Response :=
  { response with lane := response.lane.receive messages }

/-- A response in which every item number is replaced. -/
def renumber (r : Equiv.Perm WorkItemId) (response : Response) : Response :=
  { response with
    lane := response.lane.renumber r
    messages := response.messages.map (·.renumber r) }

end Response

variable (l : Lane) (now : Instant) (fresh : WorkItemId)

/-- Claiming the next item. -/
def respondNext : Response :=
  match l.poll.candidate? now with
  | none => .plain (.ok (.claimed none)) l.poll
  | some row =>
    match l.poll.item? row.head with
    | none =>
      .plain (.error (.notFound (.headOf row.head row.name)))
        (l.poll.updateRow row.name fun row => { row with lockedUntil := now + leaseDuration })
    | some item =>
      .plain (.ok (.claimed (some (item.attempted now)))) (l.poll.lease now row item)

/-- The effects of completing an item, if it may be completed.  Of the store they depend on the next
    number alone. -/
def completion (id : WorkItemId) : Except Error (List Effect) :=
  (Store.numbering fresh).completion now id l

/-- Completing an item. -/
def respondComplete (id : WorkItemId) : Response :=
  match l.completion now fresh id with
  | .error e => .plain (.error e) l
  | .ok effects =>
    { answer := .ok .done
      lane := effects.foldl (fun l effect => effect.onLane l) l
      used := effects.foldl (fun n effect => n + effect.used) 0
      messages := effects.flatMap Effect.messages }

/-- Settling an item by a change to its row. -/
def respondSettle (id : WorkItemId) (change : RowChange) : Response :=
  match l.head id with
  | .error e => .plain (.error e) l
  | .ok (item, _) => .plain (.ok .done) (l.updateRow item.queueName (change.apply now))

/-- A lane once a queue has a row, that row, and how many numbers this uses up. -/
structure Reserved where
  lane : Lane
  row : Row
  used : Int

/-- Making sure that a queue has a row. -/
def reserving (queue : QueueRef) : Reserved :=
  match l.row? queue.name with
  | some row => ⟨l, row, 0⟩
  | none =>
    let row := Row.start queue.name fresh now
    ⟨(l.addItem (.placeholder fresh queue .none now)).addRow row, row, 1⟩

/-- Reserving a queue and changing its row, unless the row speaks against it. -/
def respondReserve (queue : QueueRef) (change : RowChange) (refusal : Row → Option Error) :
    Response :=
  let reserved := l.reserving now fresh queue
  match refusal reserved.row with
  | some e => ⟨.error e, reserved.lane, reserved.used, []⟩
  | none =>
    ⟨.ok .done, reserved.lane.updateRow queue.name (change.apply now), reserved.used, []⟩

/-- Releasing a lock of a queue. -/
def unlocked (name lockId : String) : Lane :=
  match l.row? name with
  | none => l
  | some row =>
    if row.lock = some lockId then l.updateRow name ((RowChange.dropLock lockId).apply now)
    else
      match l.item? row.head with
      | some head => if head.lockWhenComplete = some lockId then l.setItem head.released else l
      | none => l

/-- What comes of an operation on a lane when `fresh` is the next item number. -/
def respond : Operation → Response
  | .next _ => l.respondNext now
  | .complete id _ => l.respondComplete now fresh id
  | .fail id _ => l.respondSettle now id .fail
  | .delay id _ => l.respondSettle now id .delay
  | .purge _ =>
    let (kept, removed) :=
      Store.purged (now - completedRetention) purgeBatchSize l.completed
    .plain (.ok (.removed removed)) { l with completed := kept }
  | .pause queue => l.respondReserve now fresh queue .pause fun _ => none
  | .resume queue => .plain (.ok .done) (l.updateRow queue.name (RowChange.resume.apply now))
  | .reset queue => .plain (.ok .done) (l.updateRow queue.name (RowChange.reset.apply now))
  | .lock queue lockId =>
    l.respondReserve now fresh queue (.putLock lockId) (·.lock.map (.alreadyLocked queue.name))
  | .unlock queue lockId => .plain (.ok .done) (l.unlocked now queue.name lockId)
  | .enqueue _ _ => .plain (.ok .done) l
  | .clear => .plain (.ok .done) l

end Lane

/-! ### What an operation does to a store -/

namespace Store

variable {s : Store} {lane : Lane} {shard : Shard} {now : Instant}

/-- The store after a response of one of its lanes. -/
def take (s : Store) (response : Lane.Response) : Answer Store Operation.Value :=
  (response.answer, s.replace response.lane response.used response.messages)

theorem take_plain (s : Store) (answer : Except Error Operation.Value) (lane : Lane) :
    s.take (.plain answer lane) = (answer, s.setLane lane) :=
  congrArg (Prod.mk answer) (replace_zero_nil s lane)

theorem completion_eq (s : Store) (now : Instant) (id : WorkItemId) (lane : Lane) :
    s.completion now id lane = lane.completion now s.nextId id := rfl

variable (hs : s.Sound) (hl : s.lane? shard = some lane)

include hl

theorem next_eq_take :
    (s.next now shard).map .claimed = s.take (lane.respondNext now) := by
  unfold next withLane Lane.respondNext
  rw [hl]
  dsimp only
  cases lane.poll.candidate? now with
  | none => exact (take_plain s _ _).symm
  | some row =>
    dsimp only
    rw [show (lane.poll.updateRow row.name fun r =>
      { r with lockedUntil := now + leaseDuration }).item? row.head =
        lane.poll.item? row.head from rfl]
    cases lane.poll.item? row.head with
    | none => exact (take_plain s _ _).symm
    | some item => exact (take_plain s _ _).symm

include hs

theorem complete_eq_take (id : WorkItemId) :
    (s.complete now id shard).map (fun _ => .done) =
      s.take (lane.respondComplete now s.nextId id) := by
  obtain ⟨hmem, -⟩ := mem_of_lane? hl
  unfold complete withLane Lane.respondComplete
  rw [hl]
  dsimp only
  rw [completion_eq]
  cases heffects : lane.completion now s.nextId id with
  | error e =>
    dsimp only
    rw [take_plain, hs.setLane_self hmem]
    rfl
  | ok effects =>
    dsimp only
    rw [perform_self hs.nodup hmem (isAt_of_mem_completion hs hmem heffects)]
    rfl

theorem settleRow_eq_take (id : WorkItemId) (change : RowChange) :
    (s.settleRow id shard (change.apply now)).map (fun _ => .done) =
      s.take (lane.respondSettle now id change) := by
  obtain ⟨hmem, -⟩ := mem_of_lane? hl
  unfold settleRow withLane Lane.respondSettle
  rw [hl]
  dsimp only
  cases lane.head id with
  | error e =>
    dsimp only
    rw [take_plain, hs.setLane_self hmem]
    rfl
  | ok found => exact (take_plain s _ _).symm

theorem withReserved_eq {α : Type} {queue : QueueRef} (hshard : queue.shard = shard)
    (f : Store → Lane → Row → Answer Store α) :
    s.withReserved now queue f =
      f (s.replace (lane.reserving now s.nextId queue).lane
          (lane.reserving now s.nextId queue).used [])
        (lane.reserving now s.nextId queue).lane (lane.reserving now s.nextId queue).row := by
  obtain ⟨hmem, -⟩ := mem_of_lane? hl
  unfold withReserved withLane Lane.reserving
  rw [hshard, hl]
  dsimp only
  cases lane.row? queue.name with
  | some row =>
    dsimp only
    rw [replace_zero_nil, hs.setLane_self hmem]
  | none =>
    dsimp only
    rw [replace_nil]

theorem reserve_eq_take {queue : QueueRef} (hshard : queue.shard = shard) (change : RowChange)
    (refusal : Row → Option Error) {f : Store → Lane → Row → Answer Store Unit}
    (hf : ∀ s lane row, f s lane row =
      match refusal row with
      | some e => (.error e, s)
      | none => (.ok (), s.setLane (lane.updateRow queue.name (change.apply now)))) :
    (s.withReserved now queue f).map (fun _ => .done) =
      s.take (lane.respondReserve now s.nextId queue change refusal) := by
  rw [withReserved_eq hs hl hshard, hf]
  unfold Lane.respondReserve
  dsimp only
  cases refusal (lane.reserving now s.nextId queue).row with
  | some e => rfl
  | none =>
    refine congrArg (Prod.mk _) ?_
    rw [replace_nil, replace_nil]
    exact setLane_setLane _ rfl

theorem unlock_eq_take {queue : QueueRef} (hshard : queue.shard = shard) (lockId : String) :
    (s.unlock queue lockId).map (fun _ => .done) =
      s.take (.plain (.ok .done) (lane.unlocked now queue.name lockId)) := by
  obtain ⟨hmem, -⟩ := mem_of_lane? hl
  have hsame : Answer.map (fun _ => .done) ((.ok (), s) : Answer Store Unit) =
      s.take (.plain (.ok .done) lane) := by
    rw [take_plain, hs.setLane_self hmem]
    rfl
  unfold unlock withLane Lane.unlocked
  rw [hshard, hl]
  dsimp only
  cases lane.row? queue.name with
  | none => exact hsame
  | some row =>
    dsimp only
    split
    · exact (take_plain s _ _).symm
    · cases lane.item? row.head with
      | none => exact hsame
      | some head =>
        dsimp only
        split
        · exact (take_plain s _ _).symm
        · exact hsame


end Store

/-- An operation on a shard does to a store what its lane responds, and nothing else. -/
theorem Operation.run_eq_take {s : Store} {lane : Lane} {shard : Shard} (hs : s.Sound)
    (operation : Operation) (hshard : operation.shard? = some shard)
    (hl : s.lane? shard = some lane) (clock : Clock) :
    operation.run clock s = s.take (lane.respond clock.storeNow s.nextId operation) := by
  cases operation with
  | enqueue freshName item => cases hshard
  | clear => cases hshard
  | next other =>
    cases hshard
    exact Store.next_eq_take hl
  | complete id other =>
    cases hshard
    exact Store.complete_eq_take hs hl id
  | fail id other =>
    cases hshard
    exact Store.settleRow_eq_take hs hl id .fail
  | delay id other =>
    cases hshard
    exact Store.settleRow_eq_take hs hl id .delay
  | purge other =>
    cases hshard
    show (Store.purge clock.storeNow shard s).map _ = _
    unfold Store.purge Store.withLane
    rw [hl]
    exact (Store.take_plain s _ _).symm
  | pause queue =>
    cases hshard
    exact Store.reserve_eq_take hs hl rfl .pause (fun _ => none) fun _ _ _ => rfl
  | resume queue =>
    cases hshard
    show (Store.resume queue s).map _ = _
    unfold Store.resume Store.withLane
    rw [hl]
    exact (Store.take_plain s _ _).symm
  | reset queue =>
    cases hshard
    show (Store.reset clock.storeNow queue s).map _ = _
    unfold Store.reset Store.withLane
    rw [hl]
    exact (Store.take_plain s _ _).symm
  | lock queue lockId =>
    cases hshard
    show (Store.lock clock.storeNow queue lockId s).map _ = _
    unfold Store.lock
    refine Store.reserve_eq_take hs hl rfl (.putLock lockId)
      (·.lock.map (.alreadyLocked queue.name)) fun s lane row => ?_
    cases row.lock <;> rfl
  | unlock queue lockId =>
    cases hshard
    exact Store.unlock_eq_take hs hl rfl lockId

/-- An operation on a shard of another deployment finds it not, and does nothing. -/
theorem Operation.run_of_unknown {s : Store} {shard : Shard} (operation : Operation)
    (hshard : operation.shard? = some shard) (hl : s.lane? shard = none) (clock : Clock) :
    operation.run clock s = (.error (.notFound (.shard shard)), s) := by
  have hunknown : ∀ {α β : Type} (f : Lane → Answer Store α) (g : α → β),
      (s.withLane shard f).map g = (.error (.notFound (.shard shard)), s) := by
    intro α β f g
    unfold Store.withLane
    rw [hl]
    rfl
  cases operation with
  | enqueue freshName item => cases hshard
  | clear => cases hshard
  | _ =>
    cases hshard
    exact hunknown _ _

end Courier
