/-
  Courier/Proofs/Store/History.lean
  =================================
  **Histories of the in-process store.**

  A call is an operation, or the commit of a transaction on the table of jobs,
  together with the clocks at which it runs; callers share nothing but the store,
  so any number of them working at once comes to one list of calls.  The clocks of
  different calls need not agree, and may go back.  `Store.after` is the state that
  a list of calls leaves behind.

  What a call did is told from its answer and from the state it found:
  `Call.filed` are the numbers it filed items under, `Call.completed` the item it
  retired, and `Call.Frees` says whether it gave up the lease of a queue.
-/
import Courier.Store.Backend

namespace Courier

open Courier.Time

/-! ### Transactions that can be open -/

/-- Whether a prepared item can come out of `NewItem.prepare` in a deployment. -/
def PreparedItem.IsFor (p : PreparedItem) (sharding : Sharding) : Prop :=
  ∃ (freshName : String) (item : NewItem), item.prepare sharding freshName = .ok p

/-- What a preparation that succeeds establishes: there is a URL, the queue is on the shard that
    owns it, and so is what the item blocks, which is not its own queue. -/
theorem NewItem.prepare_spec {sharding : Sharding} {freshName : String} {item : NewItem}
    {p : PreparedItem} (h : item.prepare sharding freshName = .ok p) :
    p.url ≠ "" ∧ p.queue = .ofName sharding p.queue.name ∧
      ∀ target, p.blocking = .queue target →
        target = .ofName sharding target.name ∧ target.name ≠ p.queue.name := by
  unfold NewItem.prepare at h
  split at h
  · cases h
  · rename_i hurl
    split at h
    · cases h
      exact ⟨hurl, rfl, fun target htarget => by cases htarget⟩
    · dsimp only at h
      split at h
      · cases h
      · rename_i hne
        cases h
        refine ⟨hurl, rfl, fun target htarget => ?_⟩
        cases htarget
        exact ⟨rfl, hne⟩

/-- The transactions that can be open over stores of a deployment.  Each statement may have
    found another store, since other callers go on while a transaction is open. -/
inductive JobTransaction.IsOpen (sharding : Sharding) : JobTransaction → Prop where
  | start : IsOpen sharding .start
  | create {tx : JobTransaction} (s : Store) (name : String) :
      IsOpen sharding tx → IsOpen sharding (tx.create s name)
  | update {tx : JobTransaction} (s : Store) (name : String) (at_ : Instant) :
      IsOpen sharding tx → IsOpen sharding (tx.update s name at_).2
  | enqueue {tx : JobTransaction} (s : Store) (freshName : String) (item : NewItem) :
      s.sharding = sharding → IsOpen sharding tx → IsOpen sharding (tx.enqueue s freshName item).2

/-- All that an open transaction has staged for filing is prepared for the deployment. -/
theorem JobTransaction.IsOpen.isFor {sharding : Sharding} {tx : JobTransaction}
    (h : tx.IsOpen sharding) : ∀ p ∈ tx.items, p.IsFor sharding := by
  induction h with
  | start => intro p hp; cases hp
  | create s name _ ih =>
    intro p hp
    unfold JobTransaction.create at hp
    split at hp <;> exact ih p hp
  | update s name at_ _ ih =>
    intro p hp
    unfold JobTransaction.update at hp
    split at hp <;> exact ih p hp
  | enqueue s freshName item hs _ ih =>
    intro p hp
    unfold JobTransaction.enqueue at hp
    split at hp
    · rename_i prepared hprepare
      rcases List.mem_append.1 hp with hold | hnew
      · exact ih p hold
      · rw [List.mem_singleton.1 hnew]
        exact ⟨freshName, item, hs ▸ hprepare⟩
    · exact ih p hp

namespace Store

/-! ### Calls -/

/-- What is asked of the store of a deployment. -/
inductive Request (sharding : Sharding) where
  | operate (operation : Operation)
  | commit (tx : JobTransaction) (isOpen : tx.IsOpen sharding)

/-- A request with the clocks at which it is carried out. -/
structure Call (sharding : Sharding) where
  clock : Clock
  request : Request sharding

variable {sharding : Sharding}

/-- Carries out a call. -/
def Call.run (c : Call sharding) (s : Store) : Answer Store Operation.Value :=
  match c.request with
  | .operate operation => operation.run c.clock s
  | .commit tx _ => (s.commit c.clock.storeNow tx).map fun _ => .done

/-- The state after a history. -/
def after (s : Store) (calls : List (Call sharding)) : Store :=
  calls.foldl (fun s c => (c.run s).2) s

/-- The state that a history of a new store leaves behind. -/
def reached (calls : List (Call sharding)) : Store := (empty sharding).after calls

theorem after_append (s : Store) (calls more : List (Call sharding)) :
    s.after (calls ++ more) = (s.after calls).after more :=
  List.foldl_append

theorem reached_append (calls more : List (Call sharding)) :
    reached (calls ++ more) = (reached calls).after more :=
  after_append _ calls more

/-- What the calls of a history tell one after another, each from the state it finds. -/
def told {α : Type} (tell : Call sharding → Store → List α) (s : Store) :
    List (Call sharding) → List α
  | [] => []
  | c :: calls => tell c s ++ told tell (c.run s).2 calls

/-! ### Filing -/

/-- What becomes of prepared items that are filed in order, up to the first that fails. -/
def insertResults (now : Instant) : List PreparedItem → Store → List EnqueueResult
  | [], _ => []
  | p :: ps, s =>
    match s.insert now p with
    | (.ok result, s) => result :: insertResults now ps s
    | (.error _, _) => []

/-- The number under which an item was filed in a queue, if it was. -/
def filedIn (queue : QueueRef) : EnqueueResult → List WorkItemId
  | .created id target => if target = queue then [id] else []
  | .duplicate _ _ => []

/-- The numbers under which a call files items in a queue, in order. -/
def Call.filed (queue : QueueRef) (c : Call sharding) (s : Store) : List WorkItemId :=
  match c.request with
  | .operate (.enqueue _ _) =>
    match (c.run s).1 with
    | .ok (.enqueued result) => filedIn queue result
    | _ => []
  | .operate _ => []
  | .commit tx _ => (s.insertResults c.clock.storeNow tx.items).flatMap (filedIn queue)

/-! ### Settling -/

/-- The pending item of a number on a shard. -/
def item? (s : Store) (shard : Shard) (id : WorkItemId) : Option WorkItem :=
  (s.lane? shard).bind (·.item? id)

/-- The row of a queue. -/
def row? (s : Store) (queue : QueueRef) : Option Row :=
  (s.lane? queue.shard).bind (·.row? queue.name)

/-- The item that a call completes, if it completes one. -/
def Call.completed (c : Call sharding) (s : Store) : List WorkItem :=
  match c.request with
  | .operate (.complete id shard) =>
    match (c.run s).1 with
    | .ok _ => (s.item? shard id).toList
    | .error _ => []
  | _ => []

/-- Whether an item is the head of a queue. -/
def IsHead (s : Store) (queue : QueueRef) (shard : Shard) (id : WorkItemId) : Prop :=
  queue.shard = shard ∧ (s.row? queue).map (·.head) = some id

instance (s : Store) (queue : QueueRef) (shard : Shard) (id : WorkItemId) :
    Decidable (s.IsHead queue shard id) := inferInstanceAs (Decidable (_ ∧ _))

/-- Whether a call gives up the lease of a queue: it completes, fails or delays the head of the
    queue, resets the queue or removes everything. -/
def Call.Frees (queue : QueueRef) (c : Call sharding) (s : Store) : Prop :=
  match c.request with
  | .operate (.complete id shard) => (c.run s).1 = .ok .done ∧ s.IsHead queue shard id
  | .operate (.fail id shard) => (c.run s).1 = .ok .done ∧ s.IsHead queue shard id
  | .operate (.delay id shard) => (c.run s).1 = .ok .done ∧ s.IsHead queue shard id
  | .operate (.reset target) => target = queue
  | .operate .clear => True
  | _ => False

/-- Whether no call of a history gives up the lease of a queue. -/
def KeepsLease (queue : QueueRef) (s : Store) : List (Call sharding) → Prop
  | [] => True
  | c :: calls => ¬ c.Frees queue s ∧ KeepsLease queue (c.run s).2 calls

end Store

end Courier
