/-
  Courier/Proofs/Store/Parametric.lean
  ====================================
  **What the response of a lane depends on.**

  An operation on a shard leaves the blocks of its lane as they are, once the mailbox
  is read (`Lane.sameBlocks_respond`), and posts about items of its own shard only.
  If it does not read the mailbox, it does the same whatever has arrived there
  (`Lane.respond_receive`).  It uses up one number at most, and does nothing with it
  but write it down: under another next number it leaves the same lane and the same
  messages with the other number in its place (`Lane.parametric_respond`).
-/
import Courier.Proofs.Store.Response

namespace Courier

open Courier.Time

/-! ### What a response keeps -/

namespace Effect

theorem shard_foldl_onLane (effects : List Effect) (l : Lane) :
    (effects.foldl (fun l effect => effect.onLane l) l).shard = l.shard := by
  induction effects generalizing l with
  | nil => rfl
  | cons effect rest ih => exact (ih _).trans (effect.shard_onLane l)

theorem replayed_foldl_onLane (effects : List Effect) (l : Lane) (name : String) :
    (effects.foldl (fun l effect => effect.onLane l) l).replayed name = l.replayed name := by
  induction effects generalizing l with
  | nil => rfl
  | cons effect rest ih => exact (ih _).trans (effect.replayed_onLane l name)

theorem foldl_onLane_receive (effects : List Effect) (l : Lane) (messages : List BlockingMessage) :
    effects.foldl (fun l effect => effect.onLane l) (l.receive messages) =
      (effects.foldl (fun l effect => effect.onLane l) l).receive messages := by
  induction effects generalizing l with
  | nil => rfl
  | cons effect rest ih =>
    have hstep : effect.onLane (l.receive messages) = (effect.onLane l).receive messages := by
      cases effect <;> rfl
    rw [List.foldl_cons, hstep, ih]
    rfl

end Effect

namespace Lane

/-- Whether a lane comes from another one by what keeps its shard, and its blocks once the mailbox
    is read. -/
structure SameBlocks (l l' : Lane) : Prop where
  shard : l'.shard = l.shard
  replayed : ∀ name, l'.replayed name = l.replayed name

variable {l : Lane} {now : Instant} {fresh : WorkItemId}

theorem sameBlocks_poll (l : Lane) : l.SameBlocks l.poll :=
  ⟨shard_poll l, replayed_poll l⟩

theorem sameBlocks_reserving (l : Lane) (now : Instant) (fresh : WorkItemId) (queue : QueueRef) :
    l.SameBlocks (l.reserving now fresh queue).lane := by
  unfold reserving
  split <;> exact ⟨rfl, fun _ => rfl⟩

theorem sameBlocks_respond (l : Lane) (now : Instant) (fresh : WorkItemId)
    (operation : Operation) : l.SameBlocks (l.respond now fresh operation).lane := by
  have hreserve : ∀ queue change refusal,
      l.SameBlocks (l.respondReserve now fresh queue change refusal).lane := by
    intro queue change refusal
    unfold respondReserve
    have hreserving := l.sameBlocks_reserving now fresh queue
    dsimp only
    split <;> exact ⟨hreserving.shard, hreserving.replayed⟩
  have hsettle : ∀ id change, l.SameBlocks (l.respondSettle now id change).lane := by
    intro id change
    unfold respondSettle
    split <;> exact ⟨rfl, fun _ => rfl⟩
  cases operation with
  | next shard =>
    show l.SameBlocks (l.respondNext now).lane
    have hpoll := l.sameBlocks_poll
    unfold respondNext
    split
    · exact hpoll
    · split <;> exact ⟨hpoll.shard, hpoll.replayed⟩
  | complete id shard =>
    show l.SameBlocks (l.respondComplete now fresh id).lane
    unfold respondComplete
    split
    · exact ⟨rfl, fun _ => rfl⟩
    · exact ⟨Effect.shard_foldl_onLane _ l, Effect.replayed_foldl_onLane _ l⟩
  | fail id shard => exact hsettle id .fail
  | delay id shard => exact hsettle id .delay
  | pause queue => exact hreserve queue .pause fun _ => none
  | lock queue lockId =>
    exact hreserve queue (.putLock lockId) (·.lock.map (.alreadyLocked queue.name))
  | unlock queue lockId =>
    show l.SameBlocks (l.unlocked now queue.name lockId)
    unfold unlocked
    split
    · exact ⟨rfl, fun _ => rfl⟩
    · split
      · exact ⟨rfl, fun _ => rfl⟩
      · split
        · split <;> exact ⟨rfl, fun _ => rfl⟩
        · exact ⟨rfl, fun _ => rfl⟩
  | _ => exact ⟨rfl, fun _ => rfl⟩

/-- What an operation on a shard posts is about items of that shard. -/
theorem token_shard_respond {sharding : Sharding} {bound : WorkItemId} (hs : l.Sound sharding bound)
    (operation : Operation) :
    ∀ m ∈ (l.respond now fresh operation).messages, m.token.shard = l.shard := by
  have hnone : ∀ m ∈ ([] : List BlockingMessage), m.token.shard = l.shard :=
    fun m hm => absurd hm List.not_mem_nil
  have hreserve : ∀ queue change refusal,
      (l.respondReserve now fresh queue change refusal).messages = [] := by
    intro queue change refusal
    unfold respondReserve
    dsimp only
    split <;> rfl
  have hsettle : ∀ id change, (l.respondSettle now id change).messages = [] := by
    intro id change
    unfold respondSettle
    split <;> rfl
  cases operation with
  | next shard =>
    show ∀ m ∈ (l.respondNext now).messages, m.token.shard = l.shard
    unfold respondNext
    split
    · exact hnone
    · split <;> exact hnone
  | complete id shard =>
    show ∀ m ∈ (l.respondComplete now fresh id).messages, m.token.shard = l.shard
    unfold respondComplete
    split
    · exact hnone
    · rename_i effects heffects
      obtain ⟨item, row, hhead, hmessages⟩ := Store.completion_messages heffects
      have hat : item.shard = l.shard :=
        hs.here item (mem_of_item? (head_eq_ok_iff.1 hhead).1).1
      intro m hm
      rw [hmessages] at hm
      rcases List.mem_append.1 hm with hm | hm
      · split at hm
        · rw [Blocking.token_of_mem hm]
          exact hat
        · exact absurd hm List.not_mem_nil
      · rw [Blocking.token_of_mem hm]
  | fail id shard => exact hsettle id .fail ▸ hnone
  | delay id shard => exact hsettle id .delay ▸ hnone
  | pause queue => exact hreserve queue .pause _ ▸ hnone
  | lock queue lockId => exact hreserve queue (.putLock lockId) _ ▸ hnone
  | _ => exact hnone

/-! ### What a response depends on -/

/-- An operation that does not read the mailbox does the same whatever has arrived there. -/
theorem respond_receive {operation : Operation} (hread : ∀ shard, operation ≠ .next shard)
    (messages : List BlockingMessage) :
    (l.receive messages).respond now fresh operation =
      (l.respond now fresh operation).receive messages := by
  have hreserve : ∀ queue change refusal,
      (l.receive messages).respondReserve now fresh queue change refusal =
        (l.respondReserve now fresh queue change refusal).receive messages := by
    intro queue change refusal
    have hrow : (l.receive messages).row? queue.name = l.row? queue.name := rfl
    unfold respondReserve reserving
    rw [hrow]
    cases l.row? queue.name with
    | none =>
      dsimp only
      split <;> rfl
    | some row =>
      dsimp only
      split <;> rfl
  have hsettle : ∀ id change,
      (l.receive messages).respondSettle now id change =
        (l.respondSettle now id change).receive messages := by
    intro id change
    have hhead : (l.receive messages).head id = l.head id := rfl
    unfold respondSettle
    rw [hhead]
    cases l.head id <;> rfl
  cases operation with
  | next shard => exact absurd rfl (hread shard)
  | complete id shard =>
    have hsame : (l.receive messages).completion now fresh id = l.completion now fresh id := rfl
    show (l.receive messages).respondComplete now fresh id = _
    unfold respondComplete
    rw [hsame]
    show _ = (l.respondComplete now fresh id).receive messages
    unfold respondComplete
    cases l.completion now fresh id with
    | error e => rfl
    | ok effects =>
      dsimp only
      rw [Effect.foldl_onLane_receive]
      rfl
  | fail id shard => exact hsettle id .fail
  | delay id shard => exact hsettle id .delay
  | pause queue => exact hreserve queue .pause fun _ => none
  | lock queue lockId =>
    exact hreserve queue (.putLock lockId) (·.lock.map (.alreadyLocked queue.name))
  | unlock queue lockId =>
    have hsame : (l.receive messages).unlocked now queue.name lockId =
        (l.unlocked now queue.name lockId).receive messages := by
      have hrow : (l.receive messages).row? queue.name = l.row? queue.name := rfl
      unfold unlocked
      rw [hrow]
      cases l.row? queue.name with
      | none => rfl
      | some row =>
        have hitem : (l.receive messages).item? row.head = l.item? row.head := rfl
        dsimp only
        rw [hitem]
        split
        · rfl
        · cases l.item? row.head with
          | none => rfl
          | some head =>
            dsimp only
            split <;> rfl
    exact congrArg (Response.plain (.ok .done)) hsame
  | _ => rfl

/-- Whether what comes of an operation on a lane, as a function of the next number, uses up none and
    does not depend on it, or uses up one and does nothing with it but write it down. -/
def Parametric (l : Lane) (response : WorkItemId → Response) : Prop :=
  (∀ fresh, (response fresh).used = 0 ∧ ∀ other, response other = response fresh) ∨
  ∀ fresh, (response fresh).used = 1 ∧ ∀ r : Equiv.Perm WorkItemId, l.renumber r = l →
    response (r fresh) = (response fresh).renumber r

theorem parametric_const (response : Response) (h : response.used = 0) :
    l.Parametric fun _ => response :=
  Or.inl fun _ => ⟨h, fun _ => rfl⟩

/-- A queue that has a row is not reserved; the row of any other is headed by the next number. -/
theorem parametric_respondReserve (l : Lane) (now : Instant) (queue : QueueRef)
    (change : RowChange) (refusal : Row → Option Error)
    (hnew : ∀ fresh, refusal (.start queue.name fresh now) = none) :
    l.Parametric fun fresh => l.respondReserve now fresh queue change refusal := by
  cases hrow : l.row? queue.name with
  | some row =>
    have hsame : (fun fresh => l.respondReserve now fresh queue change refusal) =
        fun _ => l.respondReserve now 0 queue change refusal := by
      funext fresh
      unfold respondReserve reserving
      rw [hrow]
    rw [hsame]
    refine parametric_const _ ?_
    unfold respondReserve reserving
    rw [hrow]
    dsimp only
    split <;> rfl
  | none =>
    have hone : (fun fresh => l.respondReserve now fresh queue change refusal) = fun fresh =>
        ⟨.ok .done, ((l.addItem (.placeholder fresh queue .none now)).addRow
          (.start queue.name fresh now)).updateRow queue.name (change.apply now), 1, []⟩ := by
      funext fresh
      unfold respondReserve reserving
      rw [hrow]
      dsimp only
      rw [hnew fresh]
    rw [hone]
    refine Or.inr fun fresh => ⟨rfl, fun r hr => ?_⟩
    have hchange : ∀ row : Row, (change.apply now row).renumber r =
        change.apply now (row.renumber r) := by
      intro row
      cases change <;> rfl
    unfold Response.renumber
    dsimp only
    rw [renumber_updateRow _ _ hchange, renumber_addRow, renumber_addItem, hr]
    rfl

theorem renumber_of_mem {r : Equiv.Perm WorkItemId} (hr : l.renumber r = l) {item : WorkItem}
    (hi : item ∈ l.items) : item.renumber r = item := by
  have hitems : l.items.map (·.renumber r) = l.items.map id :=
    (congrArg Lane.items hr).trans (List.map_id _).symm
  exact List.map_inj_left.1 hitems item hi

/-- A queue moves on without a new number, or to a placeholder under the next one. -/
theorem advanceEffects_cases (l : Lane) (now : Instant) (item : WorkItem) (keepAlive : Bool) :
    (∃ effect : Effect, effect.used = 0 ∧
      ∀ fresh, (Store.numbering fresh).advanceEffects l now item keepAlive = [effect]) ∨
    ∀ fresh, (Store.numbering fresh).advanceEffects l now item keepAlive =
      .addPlaceholder (.placeholder fresh item.queueRef item.blocking now)
        :: Store.blockEffects item.blocking true ⟨fresh, item.shard⟩
          ++ [.rehead item.queueRef fresh now] := by
  unfold Store.advanceEffects
  cases l.successor? item.queueName item.id with
  | some next => exact Or.inl ⟨_, rfl, fun _ => rfl⟩
  | none =>
    cases keepAlive with
    | false => exact Or.inl ⟨_, rfl, fun _ => rfl⟩
    | true => exact Or.inr fun _ => rfl

theorem used_retireEffects (l : Lane) (item : WorkItem) (now : Instant) (n : Int) :
    (Store.retireEffects l item now).foldl (fun n effect => n + effect.used) n = n := by
  have hremove : (Effect.removeItem l.shard item.id).used = 0 := rfl
  have harchive : (Effect.archive l.shard ⟨item, now⟩).used = 0 := rfl
  simp only [Store.retireEffects, List.foldl_append, List.foldl_cons, List.foldl_nil, hremove,
    Store.used_blockEffects, harchive, Int.add_zero]

theorem renumber_blockEffects (r : Equiv.Perm WorkItemId) (blocking : Blocking)
    (isCreatingBlock : Bool) (token : BlockToken) :
    (Store.blockEffects blocking isCreatingBlock token).map (·.renumber r) =
      Store.blockEffects blocking isCreatingBlock (token.renumber r) := by
  cases blocking <;> rfl

theorem renumber_retireEffects {r : Equiv.Perm WorkItemId} {item : WorkItem}
    (hr : item.renumber r = item) (l : Lane) (now : Instant) :
    (Store.retireEffects l item now).map (·.renumber r) = Store.retireEffects l item now := by
  have hid : r item.id = item.id := congrArg WorkItem.id hr
  have htoken : (⟨item.id, l.shard⟩ : BlockToken).renumber r = ⟨item.id, l.shard⟩ :=
    BlockToken.renumber_eq_self hid
  have hremove : (Effect.removeItem l.shard item.id).renumber r = .removeItem l.shard item.id :=
    congrArg (Effect.removeItem l.shard) hid
  have harchive : (Effect.archive l.shard ⟨item, now⟩).renumber r = .archive l.shard ⟨item, now⟩ :=
    congrArg (fun item => Effect.archive l.shard ⟨item, now⟩) hr
  unfold Store.retireEffects
  rw [List.map_append, List.map_cons, List.map_singleton, renumber_blockEffects, hremove, htoken,
    harchive]

/-- The effects of a completion are the same whatever the next number is, or they use up that number
    and do nothing with it but write it down. -/
theorem completion_parametric (l : Lane) (now : Instant) (id : WorkItemId) :
    (∃ e, ∀ fresh, l.completion now fresh id = .error e) ∨
    (∃ effects : List Effect, effects.foldl (fun n effect => n + effect.used) 0 = 0 ∧
      ∀ fresh, l.completion now fresh id = .ok effects) ∨
    ∃ effects : WorkItemId → List Effect, ∀ fresh,
      l.completion now fresh id = .ok (effects fresh) ∧
      (effects fresh).foldl (fun n effect => n + effect.used) 0 = 1 ∧
      ∀ r : Equiv.Perm WorkItemId, l.renumber r = l →
        effects (r fresh) = (effects fresh).map (·.renumber r) := by
  rcases Store.completion_cases l now id with
    ⟨e, hrefused⟩ | ⟨item, row, locking, hhead, hlocking, hok⟩
  · exact Or.inl ⟨e, fun fresh => hrefused (.numbering fresh)⟩
  · have hi : item ∈ l.items := (mem_of_item? (head_eq_ok_iff.1 hhead).1).1
    have hunused : locking.foldl (fun n effect => n + effect.used) (0 : Int) = 0 := by
      rcases hlocking with rfl | ⟨lock, rfl⟩ <;> rfl
    have hok' := fun fresh => hok (.numbering fresh)
    rcases l.advanceEffects_cases now item _ with ⟨effect, hused, hsame⟩ | hrelay
    · refine Or.inr (Or.inl ⟨_, ?_, fun fresh => hsame fresh ▸ hok' fresh⟩)
      rw [List.foldl_append, List.foldl_append, hunused, used_retireEffects, List.foldl_cons,
        hused]
      rfl
    · refine Or.inr (Or.inr ⟨_, fun fresh => ⟨hrelay fresh ▸ hok' fresh, ?_, fun r hr => ?_⟩⟩)
      · simp only [List.foldl_append, List.foldl_cons, List.foldl_nil, hunused,
          Store.used_blockEffects, used_retireEffects]
        rfl
      · have hlocks : locking.map (·.renumber r) = locking := by
          rcases hlocking with rfl | ⟨lock, rfl⟩ <;> rfl
        rw [List.map_append, List.map_append, hlocks,
          renumber_retireEffects (renumber_of_mem hr hi), List.map_append, List.map_cons,
          renumber_blockEffects]
        rfl

theorem parametric_respondComplete (l : Lane) (now : Instant) (id : WorkItemId) :
    l.Parametric fun fresh => l.respondComplete now fresh id := by
  rcases l.completion_parametric now id with ⟨e, hrefused⟩ | ⟨effects, hused, hok⟩ | ⟨effects, hok⟩
  · have hsame : (fun fresh => l.respondComplete now fresh id) = fun _ => .plain (.error e) l := by
      funext fresh
      unfold respondComplete
      rw [hrefused]
    rw [hsame]
    exact parametric_const _ rfl
  · have hsame : (fun fresh => l.respondComplete now fresh id) =
        fun _ => l.respondComplete now 0 id := by
      funext fresh
      unfold respondComplete
      rw [hok, hok]
    rw [hsame]
    refine parametric_const _ ?_
    unfold respondComplete
    rw [hok]
    exact hused
  · refine Or.inr fun fresh => ⟨?_, fun r hr => ?_⟩
    · dsimp only
      unfold respondComplete
      rw [(hok fresh).1]
      exact (hok fresh).2.1
    · dsimp only
      unfold respondComplete
      rw [(hok fresh).1, (hok (r fresh)).1, (hok fresh).2.2 r hr]
      unfold Response.renumber
      dsimp only
      rw [← Effect.foldl_onLane_renumber, hr, Effect.foldl_used_renumber,
        Effect.flatMap_messages_renumber]

theorem parametric_respond (l : Lane) (now : Instant) (operation : Operation) :
    l.Parametric fun fresh => l.respond now fresh operation := by
  have hsettle : ∀ id change, (l.respondSettle now id change).used = 0 := by
    intro id change
    unfold respondSettle
    split <;> rfl
  cases operation with
  | next shard =>
    refine parametric_const (l.respondNext now) ?_
    unfold respondNext
    split
    · rfl
    · split <;> rfl
  | complete id shard => exact l.parametric_respondComplete now id
  | fail id shard => exact parametric_const _ (hsettle id .fail)
  | delay id shard => exact parametric_const _ (hsettle id .delay)
  | pause queue =>
    exact l.parametric_respondReserve now queue .pause (fun _ => none) fun _ => rfl
  | lock queue lockId =>
    exact l.parametric_respondReserve now queue (.putLock lockId)
      (·.lock.map (.alreadyLocked queue.name)) fun _ => rfl
  | _ => exact parametric_const _ rfl

end Lane

end Courier
