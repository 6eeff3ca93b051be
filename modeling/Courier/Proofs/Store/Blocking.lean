/-
  Courier/Proofs/Store/Blocking.lean
  ==================================
  **A queue is blocked by exactly the outstanding items that block it.**

  An item that keeps a queue blocked is known to that queue only by messages: one
  when it is filed, one when it completes, and both when a placeholder takes its
  place.  They wait in the mailbox of the queue's shard until the next poll, so what
  the blocks of a queue are worth is what the replay of the mailbox over them gives.
  Every step of a lane changes the outstanding items the way its messages say
  (`Lane.Step.blocks`), and the replay follows the messages
  (`Lane.mem_replayed_receive`), so the two agree in every reachable store
  (`Store.reached_balanced`).
-/
import Courier.Proofs.Store.Trace

namespace Courier

open Courier.Time

/-! ### Outstanding items -/

/-- What an item is known by to the queue that it keeps blocked. -/
def WorkItem.token (item : WorkItem) : BlockToken := ⟨item.id, item.shard⟩

/-- Whether a token is that of a pending item of a lane that keeps a queue blocked. -/
def Lane.Blocks (l : Lane) (queue : QueueRef) (token : BlockToken) : Prop :=
  ∃ item ∈ l.items, item.blocking = .queue queue ∧ item.token = token

/-- Whether a token is that of a pending item, on any shard, that keeps a queue blocked. -/
def Store.IsOutstanding (s : Store) (queue : QueueRef) (token : BlockToken) : Prop :=
  ∃ lane ∈ s.lanes, lane.Blocks queue token

/-- Whether the replay of each mailbox gives the outstanding items, none of them twice. -/
def Store.Balanced (s : Store) : Prop :=
  ∀ lane ∈ s.lanes, ∀ name, (lane.replayed name).Nodup ∧
    ∀ token, token ∈ lane.replayed name ↔ s.IsOutstanding ⟨name, lane.shard⟩ token

/-! ### What messages say -/

namespace BlockingMessage

/-- Whether a token blocks a queue after a message, if `before` says whether it did before. -/
def Blocks (queue : QueueRef) (token : BlockToken) (before : Prop) (m : BlockingMessage) : Prop :=
  if m.target = queue then
    if m.isCreatingBlock then before ∨ m.token = token else before ∧ m.token ≠ token
  else before

theorem mem_change (m : BlockingMessage) (tokens : List BlockToken) (token : BlockToken) :
    token ∈ m.change tokens ↔ m.Blocks m.target token (token ∈ tokens) := by
  unfold change Blocks
  rw [if_pos rfl]
  cases m.isCreatingBlock with
  | true =>
    by_cases hold : m.token ∈ tokens
    · simp only [if_true, if_pos hold]
      exact ⟨Or.inl, fun h => h.elim id fun heq => heq ▸ hold⟩
    · simp only [if_true, if_neg hold, List.mem_append, List.mem_singleton, eq_comm]
  | false =>
    simp only [Bool.false_eq_true, if_false, List.mem_filter, decide_eq_true_eq]
    exact and_congr_right fun _ => ne_comm

theorem nodup_change (m : BlockingMessage) {tokens : List BlockToken} (h : tokens.Nodup) :
    (m.change tokens).Nodup := by
  unfold change
  split
  · split
    · exact h
    · rename_i hnew
      refine List.nodup_append.2 ⟨h, List.pairwise_singleton _ _, ?_⟩
      intro a ha b hb heq
      rw [List.mem_singleton.1 hb] at heq
      exact hnew (heq ▸ ha)
  · exact h.filter _

/-- A message about another token says nothing of this one. -/
theorem blocks_of_ne {m : BlockingMessage} {token : BlockToken} (h : m.token ≠ token)
    (queue : QueueRef) (before : Prop) : m.Blocks queue token before ↔ before := by
  unfold Blocks
  split
  · split
    · exact or_iff_left h
    · exact and_iff_left h
  · exact Iff.rfl

end BlockingMessage

/-- Whether a token blocks a queue after messages. -/
def blocksAfter (queue : QueueRef) (token : BlockToken) (before : Prop)
    (messages : List BlockingMessage) : Prop :=
  messages.foldl (BlockingMessage.Blocks queue token) before

theorem blocksAfter_of_ne {messages : List BlockingMessage} {token : BlockToken}
    (h : ∀ m ∈ messages, m.token ≠ token) (queue : QueueRef) (before : Prop) :
    blocksAfter queue token before messages ↔ before := by
  induction messages generalizing before with
  | nil => exact Iff.rfl
  | cons m rest ih =>
    show blocksAfter queue token (m.Blocks queue token before) rest ↔ before
    rw [ih fun other ho => h other (List.mem_cons_of_mem _ ho)]
    exact BlockingMessage.blocks_of_ne (h m List.mem_cons_self) queue before

theorem blocksAfter_create (blocking : Blocking) (queue : QueueRef) (posted token : BlockToken)
    (before : Prop) :
    blocksAfter queue token before (blocking.messages true posted) ↔
      before ∨ (blocking = .queue queue ∧ posted = token) := by
  cases blocking with
  | none => simp [blocksAfter, Blocking.messages]
  | queue target =>
    by_cases h : target = queue <;>
      simp [blocksAfter, Blocking.messages, BlockingMessage.Blocks, h]

theorem blocksAfter_clear (blocking : Blocking) (queue : QueueRef) (posted token : BlockToken)
    (before : Prop) :
    blocksAfter queue token before (blocking.messages false posted) ↔
      before ∧ ¬ (blocking = .queue queue ∧ posted = token) := by
  cases blocking with
  | none => simp [blocksAfter, Blocking.messages]
  | queue target =>
    by_cases h : target = queue <;>
      simp [blocksAfter, Blocking.messages, BlockingMessage.Blocks, h]

theorem blocksAfter_append (queue : QueueRef) (token : BlockToken) (before : Prop)
    (messages more : List BlockingMessage) :
    blocksAfter queue token before (messages ++ more) =
      blocksAfter queue token (blocksAfter queue token before messages) more :=
  List.foldl_append

namespace Lane

variable {sharding : Sharding} {now : Instant} {fresh : WorkItemId} {l l' : Lane} {event : Event}
variable {used : Int} {messages : List BlockingMessage}

/-! ### What the replay follows -/

theorem nodup_replay {name : String} {tokens : List BlockToken} (h : tokens.Nodup)
    (m : BlockingMessage) : (replay name tokens m).Nodup := by
  unfold replay
  split
  · exact m.nodup_change h
  · exact h

theorem replayed_receive (l : Lane) (messages : List BlockingMessage) (name : String) :
    (l.receive messages).replayed name =
      (messages.filter (·.target.shard = l.shard)).foldl (replay name) (l.replayed name) := by
  unfold replayed receive
  rw [List.foldl_append]
  rfl

theorem nodup_replayed_receive {name : String} (h : (l.replayed name).Nodup)
    (messages : List BlockingMessage) : ((l.receive messages).replayed name).Nodup := by
  rw [replayed_receive]
  generalize messages.filter (·.target.shard = l.shard) = arrived
  generalize l.replayed name = tokens at h
  induction arrived generalizing tokens with
  | nil => exact h
  | cons m rest ih => exact ih _ (nodup_replay h m)

/-- The replay of messages gives the tokens of which the messages say so. -/
theorem mem_foldl_replay (shard : Shard) (name : String) (token : BlockToken)
    (messages : List BlockingMessage) (tokens : List BlockToken) :
    token ∈ (messages.filter (·.target.shard = shard)).foldl (replay name) tokens ↔
      blocksAfter ⟨name, shard⟩ token (token ∈ tokens) messages := by
  induction messages generalizing tokens with
  | nil => exact Iff.rfl
  | cons m rest ih =>
    have hstep : (token ∈ if m.target.shard = shard then replay name tokens m else tokens) =
        m.Blocks ⟨name, shard⟩ token (token ∈ tokens) := by
      refine propext ?_
      by_cases hshard : m.target.shard = shard
      · rw [if_pos hshard]
        unfold replay
        by_cases hname : m.target.name = name
        · have htarget : m.target = ⟨name, shard⟩ := by rw [← hname, ← hshard]
          rw [if_pos hname, m.mem_change, htarget]
        · have htarget : m.target ≠ ⟨name, shard⟩ := fun h => hname (congrArg QueueRef.name h)
          rw [if_neg hname, BlockingMessage.Blocks, if_neg htarget]
      · have htarget : m.target ≠ ⟨name, shard⟩ := fun h => hshard (congrArg QueueRef.shard h)
        rw [if_neg hshard, BlockingMessage.Blocks, if_neg htarget]
    show _ ↔ blocksAfter _ token (m.Blocks ⟨name, shard⟩ token (token ∈ tokens)) rest
    rw [← hstep, List.filter_cons]
    by_cases hshard : m.target.shard = shard
    · simp only [hshard, decide_true, if_true]
      exact ih _
    · simp only [hshard, decide_false, if_false]
      exact ih _

theorem mem_replayed_receive (l : Lane) (messages : List BlockingMessage) (name : String)
    (token : BlockToken) :
    token ∈ (l.receive messages).replayed name ↔
      blocksAfter ⟨name, l.shard⟩ token (token ∈ l.replayed name) messages := by
  rw [replayed_receive]
  exact mem_foldl_replay l.shard name token messages _

/-- A step leaves the blocks as they are, once the mailbox is taken into account. -/
theorem Step.replayed (h : l.Step sharding now fresh event l' used messages) (name : String) :
    l'.replayed name = l.replayed name := by
  cases h with
  | poll => exact replayed_poll l name
  | _ => rfl

/-! ### What the items of a lane block -/

/-- What items block does not depend on what changes while they are pending. -/
theorem blocks_congr {l l' : Lane} (h : ∀ item ∈ l.items, ∃ same ∈ l'.items,
      same.id = item.id ∧ same.shard = item.shard ∧ same.blocking = item.blocking)
    {queue : QueueRef} {token : BlockToken} (hb : l.Blocks queue token) :
    l'.Blocks queue token := by
  obtain ⟨item, hi, hblocking, rfl⟩ := hb
  obtain ⟨same, hs, hid, hshard, hsame⟩ := h item hi
  refine ⟨same, hs, hsame.trans hblocking, ?_⟩
  unfold WorkItem.token
  rw [hid, hshard]

theorem blocks_poll (l : Lane) (queue : QueueRef) (token : BlockToken) :
    l.poll.Blocks queue token ↔ l.Blocks queue token := by
  constructor
  · refine blocks_congr fun item hi => ?_
    rw [items_poll] at hi
    obtain ⟨a, ha, rfl⟩ := mem_items_ingest.1 hi
    exact ⟨a, ha, rfl, rfl, rfl⟩
  · refine blocks_congr fun item hi => ?_
    rw [items_poll]
    exact ⟨_, mem_items_ingest.2 ⟨item, hi, rfl⟩, rfl, rfl, rfl⟩

theorem blocks_setItem (h : l.Sound sharding fresh) {old new : WorkItem} (ho : old ∈ l.items)
    (hn : new.IsSuccessorOf old) (queue : QueueRef) (token : BlockToken) :
    (l.setItem new).Blocks queue token ↔ l.Blocks queue token := by
  constructor
  · refine blocks_congr fun item hi => ?_
    obtain ⟨a, ha, rfl⟩ := List.mem_map.1 hi
    refine ⟨a, ha, ?_⟩
    split
    · rename_i hid
      rw [h.item_eq ha ho (hid.trans hn.id)]
      exact ⟨hn.id.symm, hn.shard.symm, hn.blocking.symm⟩
    · exact ⟨rfl, rfl, rfl⟩
  · refine blocks_congr fun item hi => ⟨_, List.mem_map_of_mem hi, ?_⟩
    split
    · rename_i hid
      rw [h.item_eq hi ho (hid.trans hn.id)]
      exact ⟨hn.id, hn.shard, hn.blocking⟩
    · exact ⟨rfl, rfl, rfl⟩

theorem blocks_addItem (l : Lane) (item : WorkItem) (queue : QueueRef) (token : BlockToken) :
    (l.addItem item).Blocks queue token ↔
      l.Blocks queue token ∨ (item.blocking = .queue queue ∧ item.token = token) := by
  unfold Blocks addItem
  simp only [List.mem_append, List.mem_singleton]
  constructor
  · rintro ⟨other, hold | rfl, hb⟩
    · exact Or.inl ⟨other, hold, hb⟩
    · exact Or.inr hb
  · rintro (⟨other, hold, hb⟩ | hb)
    · exact ⟨other, Or.inl hold, hb⟩
    · exact ⟨item, Or.inr rfl, hb⟩

/-- Retiring an item takes away what it blocked, and nothing else: items have numbers of their
    own. -/
theorem blocks_retire {item : WorkItem}
    (hids : ∀ other ∈ l.items, other.id = item.id → other = item) (now : Instant)
    (queue : QueueRef) (token : BlockToken) :
    (l.retire item now).Blocks queue token ↔
      l.Blocks queue token ∧ ¬ (item.blocking = .queue queue ∧ item.token = token) := by
  constructor
  · rintro ⟨other, ho, hb, rfl⟩
    obtain ⟨ho, hne⟩ := mem_items_retire.1 ho
    refine ⟨⟨other, ho, hb, rfl⟩, ?_⟩
    rintro ⟨-, hsame⟩
    exact hne (congrArg BlockToken.workItemId hsame).symm
  · rintro ⟨⟨other, ho, hb, rfl⟩, hnot⟩
    refine ⟨other, mem_items_retire.2 ⟨ho, ?_⟩, hb, rfl⟩
    intro hid
    rw [hids other ho hid] at hb hnot
    exact hnot ⟨hb, rfl⟩

/-- A step changes the outstanding items the way its messages say. -/
theorem Step.blocks (h : l.Step sharding now fresh event l' used messages)
    (hs : l.Sound sharding fresh) (queue : QueueRef) (token : BlockToken) :
    l'.Blocks queue token ↔ blocksAfter queue token (l.Blocks queue token) messages := by
  have htoken : ∀ {item : WorkItem}, item ∈ l.items →
      (⟨item.id, l.shard⟩ : BlockToken) = item.token := by
    intro item hi
    unfold WorkItem.token
    rw [hs.here item hi]
  cases h with
  | file isFor here single =>
    rw [blocks_addItem, blocksAfter_create]
    unfold WorkItem.token PreparedItem.toWorkItem
    rw [here]
  | reserve free =>
    show (l.addItem _).Blocks queue token ↔ l.Blocks queue token
    rw [blocks_addItem]
    exact or_iff_left fun h => by cases h.1
  | poll => exact blocks_poll l queue token
  | claim first head =>
    exact blocks_setItem hs (mem_of_item? head).1 (.attempted _ now) queue token
  | change fits => exact Iff.rfl
  | release row? head deferred =>
    exact blocks_setItem hs (mem_of_item? head).1 (.released _) queue token
  | purge => exact Iff.rfl
  | advance head free locked successor =>
    obtain ⟨hi, -⟩ := mem_of_head head
    refine Iff.trans (blocks_retire ?_ now queue token) ?_
    · exact fun other ho hid => hs.item_eq ho hi hid
    · rw [blocksAfter_clear, htoken hi]
      exact Iff.rfl
  | @relay item row head free locked last kept =>
    obtain ⟨hi, -⟩ := mem_of_head head
    let placeholder : WorkItem := .placeholder fresh item.queueRef item.blocking now
    have hids : ∀ other ∈ ((l.addItem placeholder).updateRow item.queueName
        (·.rehead fresh now)).items, other.id = item.id → other = item := by
      intro other ho hid
      rcases List.mem_append.1 (show other ∈ l.items ++ [placeholder] from ho) with hold | hnew
      · exact hs.item_eq hold hi hid
      · rw [List.mem_singleton.1 hnew] at hid
        exact absurd (hs.below item hi) (hid ▸ Int.lt_irrefl fresh)
    have hplaceholder : (⟨fresh, l.shard⟩ : BlockToken) = placeholder.token := by
      show _ = (⟨fresh, item.shard⟩ : BlockToken)
      rw [hs.here item hi]
    rw [blocks_retire hids, blocksAfter_append, blocksAfter_clear, blocksAfter_create, htoken hi,
      hplaceholder]
    show (l.addItem placeholder).Blocks queue token ∧ _ ↔ _
    rw [blocks_addItem]
    exact Iff.rfl
  | finish head free unlocked last given =>
    obtain ⟨hi, -⟩ := mem_of_head head
    refine Iff.trans (blocks_retire ?_ now queue token) ?_
    · exact fun other ho hid => hs.item_eq ho hi hid
    · rw [blocksAfter_clear, htoken hi]
      exact Iff.rfl

/-- All messages of a step are about items of its lane. -/
theorem Step.token_shard (h : l.Step sharding now fresh event l' used messages) :
    ∀ m ∈ messages, m.token.shard = l.shard := by
  have hone : ∀ {blocking : Blocking} {isCreatingBlock : Bool} {id : WorkItemId},
      ∀ m ∈ blocking.messages isCreatingBlock ⟨id, l.shard⟩, m.token.shard = l.shard := by
    intro blocking isCreatingBlock id m hm
    cases blocking with
    | none => cases hm
    | queue target => rw [List.mem_singleton.1 hm]
  cases h with
  | file isFor here single => exact hone
  | relay head free locked last kept =>
    intro m hm
    rcases List.mem_append.1 hm with hm | hm <;> exact hone m hm
  | advance head free locked successor => exact hone
  | finish head free unlocked last given => exact hone
  | _ => exact fun m hm => by cases hm

end Lane

namespace Store

variable {sharding : Sharding} {s s' : Store} {now : Instant} {event : Event}

/-! ### The balance of a store -/

/-- In a sound store the token tells on which lane to look. -/
theorem Sound.isOutstanding_iff (hs : s.Sound) {lane : Lane} (mem : lane ∈ s.lanes)
    {token : BlockToken} (hshard : token.shard = lane.shard) (queue : QueueRef) :
    s.IsOutstanding queue token ↔ lane.Blocks queue token := by
  constructor
  · rintro ⟨other, ho, item, hi, hb, rfl⟩
    have hsame : other = lane :=
      hs.lane_eq ho mem (((hs.lanes other ho).here item hi).symm.trans hshard)
    exact ⟨item, hsame ▸ hi, hb, rfl⟩
  · exact fun h => ⟨lane, mem, h⟩

theorem Sound.not_isOutstanding (hs : s.Sound) {token : BlockToken}
    (hshard : ∀ lane ∈ s.lanes, token.shard ≠ lane.shard) (queue : QueueRef) :
    ¬ s.IsOutstanding queue token := by
  rintro ⟨lane, hl, item, hi, -, rfl⟩
  exact hshard lane hl ((hs.lanes lane hl).here item hi)

/-- A store without items is balanced. -/
theorem balanced_of_empty (h : ∀ lane ∈ s.lanes, lane = .empty lane.shard) : s.Balanced := by
  intro lane hl name
  have hnone : lane.replayed name = [] := by
    rw [h lane hl]
    rfl
  refine ⟨hnone ▸ .nil, fun token => iff_of_false ?_ ?_⟩
  · rw [hnone]
    exact List.not_mem_nil
  · rintro ⟨other, ho, item, hi, -, -⟩
    rw [h other ho] at hi
    exact absurd hi List.not_mem_nil

/-- Replacing a lane by what a step makes of it changes the outstanding items of all lanes the way
    the messages of the step say. -/
theorem Sound.isOutstanding_replace (hs : s.Sound) {lane lane' : Lane} {used : Int}
    {messages : List BlockingMessage} (mem : lane ∈ s.lanes)
    (step : lane.Step s.sharding now s.nextId event lane' used messages) (queue : QueueRef)
    (token : BlockToken) :
    (s.replace lane' used messages).IsOutstanding queue token ↔
      blocksAfter queue token (s.IsOutstanding queue token) messages := by
  have hs' : (s.replace lane' used messages).Sound := (Move.lane mem step).sound hs
  have hshard := step.shard
  have hreceive : ∀ l : Lane, (l.receive messages).Blocks queue token ↔ l.Blocks queue token :=
    fun _ => Iff.rfl
  by_cases hat : token.shard = lane.shard
  · -- a token of the lane: the messages say what the step did
    have mem' : lane'.receive messages ∈ (s.replace lane' used messages).lanes :=
      mem_replace.2 ⟨lane, mem, by rw [if_pos hshard.symm]⟩
    rw [hs'.isOutstanding_iff mem' (hat.trans hshard.symm), hreceive,
      step.blocks (hs.lanes lane mem), propext (hs.isOutstanding_iff mem hat queue)]
  · -- a token of another lane: the messages do not name it, and its lane stays
    have hne : ∀ m ∈ messages, m.token ≠ token := fun m hm heq =>
      hat (heq ▸ step.token_shard m hm)
    rw [blocksAfter_of_ne hne]
    by_cases hknown : ∃ third ∈ s.lanes, token.shard = third.shard
    · obtain ⟨third, hthird, htoken⟩ := hknown
      have mem' : third.receive messages ∈ (s.replace lane' used messages).lanes := by
        refine mem_replace.2 ⟨third, hthird, ?_⟩
        rw [if_neg fun h => hat (htoken.trans (h.trans hshard))]
      rw [hs'.isOutstanding_iff mem' htoken, hreceive, hs.isOutstanding_iff hthird htoken]
    · refine iff_of_false (hs'.not_isOutstanding ?_ _) (hs.not_isOutstanding ?_ _)
      · intro third hthird htoken
        have hmem : third.shard ∈ (s.replace lane' used messages).lanes.map (·.shard) :=
          List.mem_map_of_mem hthird
        rw [shards_replace] at hmem
        obtain ⟨older, hold, hsame⟩ := List.mem_map.1 hmem
        exact hknown ⟨older, hold, htoken.trans hsame.symm⟩
      · exact fun third hthird htoken => hknown ⟨third, hthird, htoken⟩

/-- Every move of a sound store keeps it balanced. -/
theorem Move.balanced (hs : s.Sound) (h : Move now s event s') (hb : s.Balanced) :
    s'.Balanced := by
  cases h with
  | record jobs => exact hb
  | clear =>
    refine balanced_of_empty fun lane hl => ?_
    obtain ⟨old, -, rfl⟩ := List.mem_map.1 hl
    rfl
  | @lane lane lane' event used messages mem step =>
    have hshard := step.shard
    intro other ho name
    obtain ⟨old, hold, rfl⟩ := mem_replace.1 ho
    obtain ⟨mid, hmid⟩ : ∃ mid, mid = if old.shard = lane'.shard then lane' else old := ⟨_, rfl⟩
    have hmidShard : mid.shard = old.shard := by
      rw [hmid]
      split
      · rename_i h; exact h.symm
      · rfl
    -- whichever lane this is, its replay was that of the lane before the step
    have hmidReplayed : mid.replayed name = old.replayed name := by
      rw [hmid]
      split
      · rename_i h
        rw [step.replayed, hs.lane_eq mem hold (hshard.symm.trans h.symm)]
      · rfl
    rw [← hmid]
    refine ⟨Lane.nodup_replayed_receive (hmidReplayed ▸ (hb old hold name).1) messages, ?_⟩
    intro token
    have hbefore : (token ∈ old.replayed name) = s.IsOutstanding ⟨name, old.shard⟩ token :=
      propext ((hb old hold name).2 token)
    rw [Lane.mem_replayed_receive, hmidReplayed, hmidShard, hbefore,
      ← hs.isOutstanding_replace mem step, ← hmidShard]
    exact Iff.rfl

/-- Every reachable store is balanced. -/
theorem reached_balanced (calls : List (Call sharding)) : (reached calls).Balanced := by
  refine after_keeps (fun hs move hb => move.balanced hs hb) (.empty sharding) rfl ?_ calls
  refine balanced_of_empty fun lane hl => ?_
  obtain ⟨shard, -, rfl⟩ := List.mem_map.1 hl
  rfl

/-! ### Polls -/

/-- A queue of which an item is handed out is blocked by nothing. -/
theorem Balanced.not_isOutstanding_of_next (hb : s.Balanced) (hs : s.Sound) {shard : Shard}
    {item : WorkItem} (h : (s.next now shard).1 = .ok (some item)) (token : BlockToken) :
    ¬ s.IsOutstanding item.queueRef token := by
  obtain ⟨lane, row, hl, hrow, hclaimable⟩ := claimable_of_next hs h
  obtain ⟨hmem, hshard⟩ := mem_of_lane? hl
  have hqueue : item.queueRef = ⟨row.name, lane.shard⟩ := by
    rw [(Lane.mem_of_row? hrow).2, hshard]
    rfl
  have hfree : lane.replayed row.name = [] := by
    rw [← Lane.blockedBy_poll]
    exact hclaimable.2.2.2.2
  rw [hqueue, ← (hb lane hmem row.name).2 token, hfree]
  exact List.not_mem_nil

/-- A poll of a shard of the deployment succeeds and leaves its mailbox empty. -/
theorem next_lane (hs : s.Sound) {shard : Shard} (hshard : shard ∈ s.sharding.shards)
    (now : Instant) :
    ∃ claimed lane, (s.next now shard).1 = .ok claimed ∧
      (s.next now shard).2.lane? shard = some lane ∧ lane.mailbox = [] := by
  obtain ⟨lane, hl⟩ := hs.exists_lane hshard
  have hpolled : lane.poll.shard = lane.shard := Lane.shard_poll lane
  rcases next_cases hs hl now with ⟨-, hrun⟩ | ⟨row, head, -, hrun⟩
  · rw [hrun]
    exact ⟨none, lane.poll, rfl, lane?_setLane_self hl hpolled, Lane.mailbox_poll lane⟩
  · rw [hrun]
    exact ⟨some _, lane.poll.lease now row head, rfl, lane?_setLane_self hl hpolled,
      Lane.mailbox_poll lane⟩

/-- In every reachable store the replay of each mailbox gives exactly the items that block the
    queue, nothing is handed out from a queue that something blocks, a poll leaves a queue
    blocked exactly if something blocks it, and no item blocks a queue of its own name. -/
theorem blocked_exactly_by_outstanding (calls : List (Call sharding)) :
    (∀ shard ∈ sharding.shards, ∃ lane, (reached calls).lane? shard = some lane ∧
      ∀ name, (lane.replayed name).Nodup ∧
        ∀ token, token ∈ lane.replayed name ↔
          (reached calls).IsOutstanding ⟨name, shard⟩ token) ∧
    (∀ now shard item, ((reached calls).next now shard).1 = .ok (some item) →
      ∀ token, ¬ (reached calls).IsOutstanding item.queueRef token) ∧
    (∀ now, ∀ shard ∈ sharding.shards, ∃ claimed lane,
      ((reached calls).next now shard).1 = .ok claimed ∧
      ((reached calls).next now shard).2.lane? shard = some lane ∧
      ∀ name, lane.blockedBy name = [] ↔
        ∀ token, ¬ ((reached calls).next now shard).2.IsOutstanding ⟨name, shard⟩ token) ∧
    (∀ lane ∈ (reached calls).lanes, ∀ item ∈ lane.items, ∀ target,
      item.blocking = .queue target → target.name ≠ item.queueName) := by
  obtain ⟨hs, hsharding⟩ := reached_sound calls
  have hb := reached_balanced calls
  refine ⟨?_, ?_, ?_, ?_⟩
  · intro shard hshard
    obtain ⟨lane, hl⟩ := hs.exists_lane (hsharding ▸ hshard)
    obtain ⟨hmem, rfl⟩ := mem_of_lane? hl
    exact ⟨lane, hl, hb lane hmem⟩
  · intro now shard item h
    exact hb.not_isOutstanding_of_next hs h
  · intro now shard hshard
    obtain ⟨claimed, lane, hok, hl, hempty⟩ := next_lane hs (hsharding ▸ hshard) now
    refine ⟨claimed, lane, hok, hl, fun name => ?_⟩
    obtain ⟨events, hmoves, -⟩ := next_idles hs now shard
    have hb' : ((reached calls).next now shard).2.Balanced :=
      hmoves.keeps (fun hs move hb => move.balanced hs hb) hs hb
    obtain ⟨hmem, rfl⟩ := mem_of_lane? hl
    have hreplayed : lane.replayed name = lane.blockedBy name := by
      unfold Lane.replayed
      rw [hempty]
      rfl
    rw [List.eq_nil_iff_forall_not_mem, ← hreplayed]
    exact forall_congr' fun token => not_congr ((hb' lane hmem name).2 token)
  · intro lane hl item hi target htarget
    exact ((hs.lanes lane hl).targets item hi target htarget).2

end Store

end Courier
