/-
  Courier/Proofs/Store/Move.lean
  ==============================
  **The moves a store can make.**

  Whatever is asked of a store, it answers by moves: a lane takes a step of its own
  (`Lane.Step`) and posts messages to the mailboxes of others, the table of jobs is
  written, or everything is removed (`Store.Move`).  A step names the new lane
  outright, with all that was checked before it, so a property of every reachable
  store needs one case for each kind of step and no look at the operations.

  Every move keeps a store sound: `Store.Moves.sound`.
-/
import Courier.Proofs.Store.History
import Courier.Proofs.Store.Poll
import Courier.Proofs.Store.Succession

namespace Courier

open Courier.Time

/-! ### Changes to a row -/

/-- What can happen to the row of a queue while its head stays. -/
inductive RowChange where
  | pause
  | resume
  | reset
  | fail
  | delay
  | putLock (lock : String)
  | dropLock (lock : String)
deriving DecidableEq, Repr

namespace RowChange

/-- A row after a change. -/
def apply (now : Instant) : RowChange → Row → Row
  | .pause, row => { row with isPaused := true }
  | .resume, row => { row with isPaused := false }
  | .reset, row => { row with errorCount := 0, lockedUntil := now }
  | .fail, row => { row with errorCount := row.errorCount + 1, lockedUntil := now + failureBackoff }
  | .delay, row => { row with errorCount := 0, lockedUntil := now }
  | .putLock lock, row => { row with lock := some lock }
  | .dropLock _, row => { row with lock := none }

/-- Whether a change may be made to a row: a lock is put on where there is no other, and taken
    off only where it is. -/
def Fits : RowChange → Row → Prop
  | .putLock lock, row => row.lock = none ∨ row.lock = some lock
  | .dropLock lock, row => row.lock = some lock
  | _, _ => True

theorem name_apply (c : RowChange) (now : Instant) (row : Row) :
    (c.apply now row).name = row.name := by cases c <;> rfl

theorem head_apply (c : RowChange) (now : Instant) (row : Row) :
    (c.apply now row).head = row.head := by cases c <;> rfl

end RowChange

theorem Row.mem_of_first? {rows : List Row} {row : Row} (h : Row.first? rows = some row) :
    row ∈ rows := by
  induction rows generalizing row with
  | nil => cases h
  | cons other rest ih =>
    unfold Row.first? at h
    split at h
    · exact List.mem_cons.2 (Or.inl (Option.some.inj h).symm)
    · rename_i found hfound
      split at h
      · exact List.mem_cons_of_mem _ (ih (hfound.trans h))
      · exact List.mem_cons.2 (Or.inl (Option.some.inj h).symm)

/-! ### Steps of a lane -/

/-- A lane after a row was leased and its head handed out. -/
def Lane.lease (l : Lane) (now : Instant) (row : Row) (item : WorkItem) : Lane :=
  (l.updateRow row.name fun r => { r with lockedUntil := now + leaseDuration }).setItem
    (item.attempted now)

/-- The message that an item begins or ceases to block a queue, if it blocks one. -/
def Blocking.messages (blocking : Blocking) (isCreatingBlock : Bool) (token : BlockToken) :
    List BlockingMessage :=
  match blocking with
  | .none => []
  | .queue target => [⟨target, isCreatingBlock, token⟩]

/-- What a move is about. -/
inductive Event where
  | filed (id : WorkItemId) (queue : QueueRef)
  | reserved (id : WorkItemId) (queue : QueueRef)
  | polled (shard : Shard)
  /-- An item was claimed; it is the item as it was handed out. -/
  | claimed (item : WorkItem)
  | changed (queue : QueueRef) (change : RowChange)
  /-- The lock that an item was going to put on its queue was taken back. -/
  | released (item : WorkItem)
  | purged (shard : Shard)
  | completed (item : WorkItem)
  | recorded
  | cleared

/-- A step of a lane: what it is about, the lane after it, how many item numbers it uses up and
    the messages it posts.  `fresh` is the next item number. -/
inductive Lane.Step (sharding : Sharding) (now : Instant) (fresh : WorkItemId) (l : Lane) :
    Event → Lane → Int → List BlockingMessage → Prop where
  | file {p : PreparedItem} (isFor : p.IsFor sharding) (here : p.queue.shard = l.shard)
      (single : l.duplicate? p = none) :
      Step sharding now fresh l (.filed fresh p.queue) (l.addItem (p.toWorkItem fresh now)) 1
        (p.blocking.messages true ⟨fresh, l.shard⟩)
  | reserve {name : String} (free : l.row? name = none) :
      Step sharding now fresh l (.reserved fresh ⟨name, l.shard⟩)
        ((l.addItem (.placeholder fresh ⟨name, l.shard⟩ .none now)).addRow
          (.start name fresh now)) 1 []
  | poll : Step sharding now fresh l (.polled l.shard) l.poll 0 []
  | claim {row : Row} {item : WorkItem} (first : l.candidate? now = some row)
      (head : l.item? row.head = some item) :
      Step sharding now fresh l (.claimed (item.attempted now)) (l.lease now row item) 0 []
  | change {name : String} {c : RowChange} (fits : ∀ row, l.row? name = some row → c.Fits row) :
      Step sharding now fresh l (.changed ⟨name, l.shard⟩ c) (l.updateRow name (c.apply now)) 0 []
  | release {row : Row} {item : WorkItem} {lock : String} (row? : l.row? row.name = some row)
      (head : l.item? row.head = some item) (deferred : item.lockWhenComplete = some lock) :
      Step sharding now fresh l (.released item) (l.setItem item.released) 0 []
  | purge :
      Step sharding now fresh l (.purged l.shard)
        { l with
          completed := (Store.purged (now - completedRetention) purgeBatchSize l.completed).1 }
        0 []
  | advance {item next : WorkItem} {row : Row} (head : l.head item.id = .ok (item, row))
      (free : l.blockedBy item.queueName = [])
      (locked : ∀ lock, item.lockWhenComplete = some lock → row.lock = some lock)
      (successor : l.successor? item.queueName item.id = some next) :
      Step sharding now fresh l (.completed item)
        ((l.updateRow item.queueName (·.rehead next.id next.createdAt)).retire item now) 0
        (item.blocking.messages false ⟨item.id, l.shard⟩)
  | relay {item : WorkItem} {row : Row} (head : l.head item.id = .ok (item, row))
      (free : l.blockedBy item.queueName = [])
      (locked : ∀ lock, item.lockWhenComplete = some lock → row.lock = some lock)
      (last : l.successor? item.queueName item.id = none)
      (kept : row.isPaused = true ∨ row.lock.isSome = true) :
      Step sharding now fresh l (.completed item)
        (((l.addItem (.placeholder fresh item.queueRef item.blocking now)).updateRow
          item.queueName (·.rehead fresh now)).retire item now) 1
        (item.blocking.messages true ⟨fresh, l.shard⟩
          ++ item.blocking.messages false ⟨item.id, l.shard⟩)
  | finish {item : WorkItem} {row : Row} (head : l.head item.id = .ok (item, row))
      (free : l.blockedBy item.queueName = [])
      (unlocked : item.lockWhenComplete = none)
      (last : l.successor? item.queueName item.id = none)
      (given : row.isPaused = false ∧ row.lock = none) :
      Step sharding now fresh l (.completed item)
        ((l.removeRow item.queueName).retire item now) 0
        (item.blocking.messages false ⟨item.id, l.shard⟩)

namespace Lane

variable {sharding : Sharding} {now : Instant} {fresh : WorkItemId} {l l' : Lane} {event : Event}
variable {used : Int} {messages : List BlockingMessage}

theorem Step.shard (h : l.Step sharding now fresh event l' used messages) : l'.shard = l.shard := by
  cases h with
  | poll => exact shard_poll l
  | _ => rfl

/-- A step never gives an item number back. -/
theorem Step.used_nonneg (h : l.Step sharding now fresh event l' used messages) : 0 ≤ used := by
  cases h <;> decide

theorem mem_of_candidate? {row : Row} (h : l.candidate? now = some row) :
    row ∈ l.rows ∧ l.Claimable now row := by
  obtain ⟨hmem, hclaim⟩ := List.mem_filter.1 (Row.mem_of_first? h)
  exact ⟨hmem, of_decide_eq_true hclaim⟩

/-- Whether a row may be claimed and an item is its head. -/
structure IsCandidate (l : Lane) (now : Instant) (row : Row) (head : WorkItem) : Prop where
  mem : row ∈ l.rows
  claimable : l.Claimable now row
  item : head ∈ l.items
  id : head.id = row.head
  name : head.queueName = row.name
  shard : head.shard = l.shard

theorem Sound.isCandidate (h : l.Sound sharding fresh) {row : Row} {head : WorkItem}
    (hfirst : l.candidate? now = some row) (hfound : l.item? row.head = some head) :
    l.IsCandidate now row head := by
  obtain ⟨hr, hclaim⟩ := mem_of_candidate? hfirst
  obtain ⟨hi, hid⟩ := mem_of_item? hfound
  obtain ⟨other, ho, hoid, hname, -⟩ := h.head row hr
  have hsame : other = head := h.item_eq ho hi (hoid.trans hid.symm)
  exact ⟨hr, hclaim, hi, hid, hsame ▸ hname, h.here head hi⟩

/-- Every step keeps a lane sound. -/
theorem Step.sound (h : l.Step sharding now fresh event l' used messages)
    (hs : l.Sound sharding fresh) : l'.Sound sharding (fresh + used) := by
  cases h with
  | file isFor here single =>
    obtain ⟨freshName, item, hprepare⟩ := isFor
    obtain ⟨hurl, -, htarget⟩ := NewItem.prepare_spec hprepare
    exact hs.addItem rfl here (decide_eq_false hurl) rfl htarget
  | reserve free => exact hs.reserve free now
  | poll => exact hs.poll.mono (Int.le_of_eq (Int.add_zero fresh).symm)
  | claim first head =>
    rw [Int.add_zero]
    refine Sound.setItem ?_ (mem_of_item? head).1 (.attempted _ now)
    exact hs.updateRow _ (fun _ => rfl) fun _ => rfl
  | change fits =>
    rw [Int.add_zero]
    exact hs.updateRow _ (RowChange.name_apply _ now) (RowChange.head_apply _ now)
  | release row? head deferred =>
    rw [Int.add_zero]
    exact hs.setItem (mem_of_item? head).1 (.released _)
  | purge =>
    rw [Int.add_zero]
    exact hs.congr rfl rfl rfl hs.blocks
  | advance head free locked successor =>
    rw [Int.add_zero]
    exact hs.advance head successor now
  | relay head free locked last kept => exact hs.relay head now
  | finish head free unlocked last given =>
    rw [Int.add_zero]
    exact hs.finish head last now

/-! ### Messages between lanes -/

/-- A lane after messages, of which those for its own shard arrived. -/
def receive (l : Lane) (messages : List BlockingMessage) : Lane :=
  { l with mailbox := l.mailbox ++ messages.filter (·.target.shard = l.shard) }

@[simp] theorem receive_nil (l : Lane) : l.receive [] = l := by
  simp [receive]

theorem receive_receive (l : Lane) (messages more : List BlockingMessage) :
    (l.receive messages).receive more = l.receive (messages ++ more) := by
  unfold receive
  rw [List.append_assoc, ← List.filter_append]

theorem Sound.receive (h : l.Sound sharding fresh) (messages : List BlockingMessage) :
    (l.receive messages).Sound sharding fresh := h.congr rfl rfl rfl h.blocks

end Lane

namespace Store

/-- A store after messages were posted. -/
def deliver (s : Store) (messages : List BlockingMessage) : Store :=
  { s with lanes := s.lanes.map (·.receive messages) }

/-- A store after a lane was replaced, with item numbers used up and messages posted. -/
def replace (s : Store) (lane : Lane) (used : Int) (messages : List BlockingMessage) : Store :=
  ({ s with nextId := s.nextId + used }.setLane lane).deliver messages

theorem mem_of_lane? {s : Store} {shard : Shard} {lane : Lane} (h : s.lane? shard = some lane) :
    lane ∈ s.lanes ∧ lane.shard = shard :=
  Keyed.mem_of_find? Lane.shard h

theorem lane?_deliver (s : Store) (messages : List BlockingMessage) (shard : Shard) :
    (s.deliver messages).lane? shard = (s.lane? shard).map (·.receive messages) :=
  List.find?_map ..

theorem lane?_replace (s : Store) (lane : Lane) (used : Int) (messages : List BlockingMessage)
    (shard : Shard) :
    (s.replace lane used messages).lane? shard =
      (if shard = lane.shard then (s.lane? shard).map fun _ => lane else s.lane? shard).map
        (·.receive messages) := by
  unfold replace
  rw [lane?_deliver, lane?_setLane]
  rfl

theorem mem_replace {s : Store} {lane other : Lane} {used : Int}
    {messages : List BlockingMessage} :
    other ∈ (s.replace lane used messages).lanes ↔
      ∃ old ∈ s.lanes, (if old.shard = lane.shard then lane else old).receive messages = other := by
  unfold replace deliver setLane
  rw [List.mem_map]
  constructor
  · rintro ⟨mid, hmid, rfl⟩
    obtain ⟨old, hold, rfl⟩ := List.mem_map.1 hmid
    exact ⟨old, hold, rfl⟩
  · rintro ⟨old, hold, rfl⟩
    exact ⟨_, List.mem_map_of_mem hold, rfl⟩

theorem shards_replace (s : Store) (lane : Lane) (used : Int) (messages : List BlockingMessage) :
    (s.replace lane used messages).lanes.map (·.shard) = s.lanes.map (·.shard) := by
  show ((s.lanes.map _).map _).map _ = _
  rw [List.map_map, List.map_map]
  refine List.map_congr_left ?_
  intro other _
  dsimp only [Function.comp_apply, Lane.receive]
  split
  · rename_i hshard; exact hshard.symm
  · rfl

/-! ### Sound stores -/

/-- Whether every shard of the deployment has its lane, and all of them are sound. -/
structure Sound (s : Store) : Prop where
  shards : s.lanes.map (·.shard) = s.sharding.shards
  lanes : ∀ lane ∈ s.lanes, lane.Sound s.sharding s.nextId

theorem Sound.empty (sharding : Sharding) : (Store.empty sharding).Sound where
  shards := by
    show (sharding.shards.map Lane.empty).map (·.shard) = sharding.shards
    rw [List.map_map]
    exact List.map_id' _
  lanes := by
    intro lane hl
    obtain ⟨shard, -, rfl⟩ := List.mem_map.1 hl
    exact .empty shard

namespace Sound

variable {s : Store}

theorem nodup (h : s.Sound) : (s.lanes.map (·.shard)).Nodup :=
  h.shards ▸ s.sharding.nodup_shards

theorem lane?_of_mem (h : s.Sound) {lane : Lane} (hl : lane ∈ s.lanes) :
    s.lane? lane.shard = some lane :=
  Keyed.find?_of_mem h.nodup hl

theorem lane_eq (h : s.Sound) {a b : Lane} (ha : a ∈ s.lanes) (hb : b ∈ s.lanes)
    (hshard : a.shard = b.shard) : a = b :=
  Keyed.eq_of_mem h.nodup ha hb hshard

/-- Every shard of the deployment has a lane. -/
theorem exists_lane (h : s.Sound) {shard : Shard} (hs : shard ∈ s.sharding.shards) :
    ∃ lane, s.lane? shard = some lane := by
  rw [← h.shards] at hs
  obtain ⟨lane, hl, rfl⟩ := List.mem_map.1 hs
  exact ⟨lane, h.lane?_of_mem hl⟩

theorem lane (h : s.Sound) {shard : Shard} {lane : Lane} (hl : s.lane? shard = some lane) :
    lane.Sound s.sharding s.nextId := h.lanes lane (mem_of_lane? hl).1

/-- Replacing a lane by a sound one keeps a store sound. -/
theorem replace (h : s.Sound) {lane : Lane} {used : Int} (hused : 0 ≤ used)
    (hlane : lane.Sound s.sharding (s.nextId + used)) (messages : List BlockingMessage) :
    (s.replace lane used messages).Sound where
  shards := by
    rw [shards_replace, h.shards]
    rfl
  lanes := by
    intro other ho
    obtain ⟨old, hold, rfl⟩ := mem_replace.1 ho
    refine Lane.Sound.receive ?_ messages
    split
    · exact hlane
    · exact (h.lanes old hold).mono (Int.le_add_of_nonneg_right hused)

end Sound

/-- What the lanes of a store add up to changes by what a replaced lane changes by. -/
theorem flatMap_replace {β : Type} [DecidableEq β] {s : Store} (hs : s.Sound)
    {lane lane' : Lane} (mem : lane ∈ s.lanes) (hshard : lane'.shard = lane.shard) (used : Int)
    (messages : List BlockingMessage) (g : Lane → List β)
    (hg : ∀ l : Lane, g (l.receive messages) = g l) :
    ((s.replace lane' used messages).lanes.flatMap g ++ g lane).Perm
      (s.lanes.flatMap g ++ g lane') := by
  have hlanes : (s.replace lane' used messages).lanes.flatMap g =
      s.lanes.flatMap fun other => g (if other.shard = lane.shard then lane' else other) := by
    unfold replace deliver setLane
    rw [List.flatMap_map, List.flatMap_map]
    refine congrArg List.flatten (List.map_congr_left fun other _ => ?_)
    rw [hg, hshard]
  rw [hlanes]
  exact Keyed.perm_flatMap_change hs.nodup mem g

/-! ### Moves of a store -/

/-- A move of a store at an instant. -/
inductive Move (now : Instant) (s : Store) : Event → Store → Prop where
  | lane {lane lane' : Lane} {event : Event} {used : Int} {messages : List BlockingMessage}
      (mem : lane ∈ s.lanes)
      (step : lane.Step s.sharding now s.nextId event lane' used messages) :
      Move now s event (s.replace lane' used messages)
  | record (jobs : List JobRecord) : Move now s .recorded { s with jobs }
  | clear : Move now s .cleared s.clear

/-- Any number of moves at an instant. -/
inductive Moves (now : Instant) : Store → List Event → Store → Prop where
  | nil (s : Store) : Moves now s [] s
  | cons {s s' s'' : Store} {event : Event} {events : List Event} (move : Move now s event s')
      (rest : Moves now s' events s'') : Moves now s (event :: events) s''

variable {now : Instant} {s s' : Store} {event : Event} {events : List Event}

theorem Move.sharding (h : Move now s event s') : s'.sharding = s.sharding := by
  cases h <;> rfl

theorem Moves.sharding (h : Moves now s events s') : s'.sharding = s.sharding := by
  induction h with
  | nil s => rfl
  | cons move _ ih => exact ih.trans move.sharding

theorem Moves.single (h : Move now s event s') : Moves now s [event] s' := .cons h (.nil s')

theorem Moves.append {s'' : Store} {more : List Event} (h : Moves now s events s')
    (h' : Moves now s' more s'') : Moves now s (events ++ more) s'' := by
  induction h with
  | nil s => exact h'
  | cons move _ ih => exact .cons move (ih h')

/-- Every move keeps a store sound. -/
theorem Move.sound (h : Move now s event s') (hs : s.Sound) : s'.Sound := by
  cases h with
  | lane mem step => exact hs.replace step.used_nonneg (step.sound (hs.lanes _ mem)) _
  | record jobs => exact ⟨hs.shards, hs.lanes⟩
  | clear =>
    constructor
    · show (s.lanes.map _).map _ = _
      rw [List.map_map]
      exact hs.shards
    · intro lane hl
      obtain ⟨old, -, rfl⟩ := List.mem_map.1 hl
      exact .empty old.shard

theorem Moves.sound (h : Moves now s events s') (hs : s.Sound) : s'.Sound := by
  induction h with
  | nil s => exact hs
  | cons move _ ih => exact ih (move.sound hs)

end Store

end Courier
