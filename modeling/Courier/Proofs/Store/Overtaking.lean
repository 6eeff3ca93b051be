/-
  Courier/Proofs/Store/Overtaking.lean
  ====================================
  **A queue that waits is passed over at most once for each pending item.**

  While a queue waits with its lease ended, a poll goes to another queue only if the
  lease of that one ended earlier still.  From the instant at which the wait begins
  such a lease is of one kind only: its head was pending at that instant
  (`Lane.Rivals.due`).  For a lease that any call sets afterwards ends later, and a
  queue that moves on to its next item takes over the instant at which that item was
  filed.  An item that was handed out meanwhile keeps its queue leased beyond that
  instant (`Lane.Rivals.leased`), so it is not handed out a second time before ours.
-/
import Courier.Proofs.Store.Recovery

namespace Courier

open Courier.Time

/-! ### What is known of rival queues -/

namespace Lane

variable {sharding : Sharding} {now since : Instant} {fresh : WorkItemId} {l l' : Lane}
variable {event : Event} {used : Int} {messages : List BlockingMessage} {pool : List WorkItem}
variable {served : List WorkItemId}

/-- What is known of the queues of a lane since an instant at which `pool` was pending and since
    which the items with the numbers `served` were handed out. -/
structure Rivals (since : Instant) (pool : List WorkItem) (served : List WorkItemId) (l : Lane) :
    Prop where
  /-- What was filed before the instant was pending then. -/
  filed : ∀ item ∈ l.items, item.createdAt < since → ∃ old ∈ pool, old.id = item.id
  /-- What has a number that was pending then is the item that was. -/
  same : ∀ item ∈ l.items, ∀ old ∈ pool, item.id = old.id → item.Is old
  /-- A lease that ended before the instant is that of an item that was pending then. -/
  due : ∀ row ∈ l.rows, row.lockedUntil < since → ∃ old ∈ pool, old.id = row.head
  /-- An item that was handed out and is pending still keeps its queue leased. -/
  leased : ∀ item ∈ l.items, item.id ∈ served →
    ∃ row ∈ l.rows, row.name = item.queueName ∧ row.head = item.id ∧ since ≤ row.lockedUntil

/-- At the instant itself all of it is plain. -/
theorem Sound.rivals (h : l.Sound sharding fresh) (since : Instant) :
    l.Rivals since l.items [] where
  filed := fun item hi _ => ⟨item, hi, rfl⟩
  same := fun item hi old ho hid => h.item_eq hi ho hid ▸ .refl item
  due := fun row hr _ => by
    obtain ⟨item, hi, hid, -⟩ := h.head row hr
    exact ⟨item, hi, hid⟩
  leased := fun _ _ hin => absurd hin List.not_mem_nil

/-- Every later step keeps what is known of rivals. -/
theorem Step.rivals (h : l.Step sharding now fresh event l' used messages)
    (hs : l.Sound sharding fresh) (hlate : since ≤ now) (hpool : ∀ old ∈ pool, old.id < fresh)
    (hserved : ∀ id ∈ served, id < fresh) (hr : l.Rivals since pool served) :
    l'.Rivals since pool served := by
  constructor
  case filed =>
    intro item hi hearly
    rcases h.origin hs hi with ⟨-, hnow⟩ | ⟨a, ha, hsame, hat⟩
    · exact absurd hlate (Int.not_le.2 (hnow ▸ hearly))
    · obtain ⟨old, ho, hid⟩ := hr.filed a ha (hat ▸ hearly)
      exact ⟨old, ho, hid.trans hsame.id.symm⟩
  case same =>
    intro item hi old ho hid
    rcases h.origin hs hi with ⟨hfresh, -⟩ | ⟨a, ha, hsame, -⟩
    · exact absurd (hpool old ho) (Int.not_lt.2 (hid ▸ hfresh))
    · exact hsame.trans (hr.same a ha old ho (hsame.id.symm.trans hid))
  case due =>
    intro row hrow hearly
    rcases h.lease_origin hs hrow with hnew | ⟨old, hold, hhead, hsame⟩ | ⟨item, hi, hhead, hat⟩
    · exact absurd hearly (Int.not_lt.2 (Int.le_trans hlate hnew))
    · exact hhead ▸ hr.due old hold (hsame ▸ hearly)
    · exact hhead ▸ hr.filed item hi (hat ▸ hearly)
  case leased =>
    intro item hi hin
    rcases h.origin hs hi with ⟨hfresh, -⟩ | ⟨a, ha, hsame, -⟩
    · exact absurd (hserved item.id hin) (Int.not_lt.2 hfresh)
    · obtain ⟨row, hrow, hname, hhead, hle⟩ := hr.leased a ha (hsame.id ▸ hin)
      obtain ⟨kept, hkept, hname', hhead', hleft⟩ :=
        h.row_kept hs hrow hi (hsame.id.trans hhead.symm)
      refine ⟨kept, hkept, hname'.trans (hname.trans hsame.queueName.symm),
        hhead'.trans (hhead.trans hsame.id.symm), ?_⟩
      rcases hleft with hbefore | hnow
      · exact hbefore.symm ▸ hle
      · exact Int.le_trans hlate hnow

/-- An item that is handed out joins those that keep their queue leased. -/
theorem Rivals.lease {row : Row} {item : WorkItem}
    (h : (l.lease now row item).Rivals since pool served) (hc : l.IsCandidate now row item)
    (hlate : since ≤ now) : (l.lease now row item).Rivals since pool (served ++ [item.id]) := by
  refine { h with leased := fun b hb hin => ?_ }
  rcases List.mem_append.1 hin with hold | hnew
  · exact h.leased b hb hold
  · have hid : b.id = item.id := List.mem_singleton.1 hnew
    have hname : b.queueName = item.queueName := by
      obtain ⟨a, ha, rfl⟩ := List.mem_map.1 hb
      split
      · rfl
      · rename_i hne
        rw [if_neg hne] at hid
        exact absurd hid hne
    exact ⟨{ row with lockedUntil := now + leaseDuration },
      List.mem_map.2 ⟨row, hc.mem, if_pos rfl⟩, hc.name.symm.trans hname.symm,
      hc.id.symm.trans hid.symm, Int.le_trans hlate (le_leased now)⟩

end Lane

namespace Store

variable {sharding : Sharding} {s s' : Store} {now since : Instant} {event : Event} {shard : Shard}
variable {pool : List WorkItem} {served : List WorkItemId} {queue : QueueRef} {lane : Lane}
variable {row ours : Row} {item : WorkItem}

/-- What is known of the queues of a shard since an instant. -/
structure Rivals (shard : Shard) (since : Instant) (pool : List WorkItem)
    (served : List WorkItemId) (s : Store) : Prop where
  pool_lt : ∀ old ∈ pool, old.id < s.nextId
  served_lt : ∀ id ∈ served, id < s.nextId
  lanes : ∀ lane ∈ s.lanes, lane.shard = shard → lane.Rivals since pool served

theorem Move.rivals (h : Move now s event s') (hs : s.Sound) (hlate : since ≤ now)
    (hr : s.Rivals shard since pool served) : s'.Rivals shard since pool served := by
  have hle : s.nextId ≤ s'.nextId := (h.ascends default).1
  refine ⟨fun old ho => Int.lt_of_lt_of_le (hr.pool_lt old ho) hle,
    fun id hin => Int.lt_of_lt_of_le (hr.served_lt id hin) hle, ?_⟩
  intro other ho hshard
  cases h with
  | record jobs => exact hr.lanes other ho hshard
  | clear =>
    obtain ⟨old, -, rfl⟩ := List.mem_map.1 ho
    constructor <;> exact fun _ hin => absurd hin List.not_mem_nil
  | @lane lane lane' _ used messages mem step =>
    obtain ⟨old, hold, rfl⟩ := mem_replace.1 ho
    have hmid : (if old.shard = lane'.shard then lane' else old).Rivals since pool served := by
      split
      · rename_i hat
        rw [if_pos hat] at hshard
        have hlane := hr.lanes lane mem (step.shard.symm.trans hshard)
        exact step.rivals (hs.lanes lane mem) hlate hr.pool_lt hr.served_lt hlane
      · rename_i hat
        rw [if_neg hat] at hshard
        exact hr.lanes old hold hshard
    exact ⟨hmid.filed, hmid.same, hmid.due, hmid.leased⟩

/-- A poll that passes a waiting queue over hands out an item that was pending when the wait began
    and was not handed out since. -/
theorem Rivals.pass (h : s.Rivals shard since pool served) (hs : s.Sound) (hlate : since ≤ now)
    (hclaims : s.Claims now shard lane row item) (hours : ours ∈ lane.poll.rows)
    (hwaits : lane.poll.Claimable now ours) (hended : ours.lockedUntil < since) :
    item.id ∉ served ∧ (∃ old ∈ pool, item.Is old) ∧
      (s.setLane (lane.poll.lease now row item)).Rivals shard since pool
        (served ++ [item.id]) := by
  obtain ⟨hmem, hshard⟩ := mem_of_lane? hclaims.here
  have hsound := (hs.lanes lane hmem).poll
  have hcand := hclaims.isCandidate hs
  have hstep : lane.Step s.sharding now s.nextId (.polled lane.shard) lane.poll 0 [] := .poll
  have hpolled : lane.poll.Rivals since pool served :=
    hstep.rivals (hs.lanes lane hmem) hlate h.pool_lt h.served_lt (h.lanes lane hmem hshard)
  have hdue : row.lockedUntil < since :=
    Int.lt_of_le_of_lt (Row.lockedUntil_le_of_not_before
      (Lane.candidate?_least hclaims.first hours hwaits)) hended
  obtain ⟨events, hmoves, -⟩ := hclaims.idles
  have hafter := hmoves.keeps (fun hs move hr => move.rivals hs hlate hr) hs h
  refine ⟨?_, ?_, ?_⟩
  · intro hin
    obtain ⟨held, hheld, hname, -, hle⟩ := hpolled.leased item hcand.item hin
    have hsame : held = row := hsound.row_eq hheld hcand.mem (hname.trans hcand.name)
    exact absurd hdue (Int.not_lt.2 (hsame ▸ hle))
  · obtain ⟨old, ho, hid⟩ := hpolled.due row hcand.mem hdue
    exact ⟨old, ho, hpolled.same item hcand.item old ho (hcand.id.trans hid.symm)⟩
  · refine ⟨hafter.pool_lt, ?_, ?_⟩
    · intro id hin
      rcases List.mem_append.1 hin with hold | hnew
      · exact h.served_lt id hold
      · rw [List.mem_singleton.1 hnew]
        exact hsound.below item hcand.item
    · intro other ho hother
      have hleased : (s.setLane (lane.poll.lease now row item)).lane? shard =
          some (lane.poll.lease now row item) :=
        lane?_setLane_self hclaims.here (Lane.shard_poll lane)
      have hfound := (hmoves.sound hs).lane?_of_mem ho
      rw [hother] at hfound
      obtain rfl := Option.some.inj (hleased.symm.trans hfound)
      exact (hafter.lanes _ ho hother).lease hcand hlate

/-! ### Histories in which a queue waits -/

/-- The items of other queues that a poll of the shard of a queue hands out. -/
def Call.passing (queue : QueueRef) (c : Call sharding) (s : Store) : List WorkItem :=
  match c.request with
  | .operate (.next shard) =>
    if shard = queue.shard then
      match (c.run s).1 with
      | .ok (.claimed (some item)) => if item.queueRef = queue then [] else [item]
      | _ => []
    else []
  | _ => []

/-- Whether a queue waits all through a history: every poll of its shard finds that it may be
    claimed, and its row stays as it is. -/
def Waits (queue : QueueRef) (row : Row) (s : Store) : List (Call sharding) → Prop
  | [] => True
  | c :: calls =>
    (c.request = .operate (.next queue.shard) → ∃ lane, s.lane? queue.shard = some lane ∧
      lane.poll.row? queue.name = some row ∧ lane.poll.Claimable c.clock.storeNow row) ∧
    (c.run s).2.row? queue = some row ∧ Waits queue row (c.run s).2 calls

/-- The pending items of other queues on the shard of a queue. -/
def others (s : Store) (queue : QueueRef) : List WorkItem :=
  match s.lane? queue.shard with
  | some lane => lane.items.filter (·.queueName ≠ queue.name)
  | none => []

/-- A call passes a queue over only if it is a poll that claims another one. -/
theorem Call.passing_cases (c : Call sharding) (hs : s.Sound) (queue : QueueRef) :
    c.passing queue s = [] ∨
    ∃ lane row item, c.request = .operate (.next queue.shard) ∧
      s.Claims c.clock.storeNow queue.shard lane row item ∧ item.queueRef ≠ queue ∧
      c.passing queue s = [item.attempted c.clock.storeNow] ∧
      (c.run s).2 = s.setLane (lane.poll.lease c.clock.storeNow row item) := by
  unfold Call.passing
  split
  · rename_i shard hc
    split
    · rename_i hshard
      subst hshard
      have hanswer : c.run s = (s.next c.clock.storeNow queue.shard).map .claimed :=
        Call.run_operate hc s
      cases hl : s.lane? queue.shard with
      | none =>
        unfold next withLane at hanswer
        rw [hl] at hanswer
        rw [hanswer]
        exact Or.inl rfl
      | some lane =>
        rcases next_cases hs hl c.clock.storeNow with ⟨-, hrun⟩ | ⟨row, item, hclaims, hrun⟩
        · rw [hanswer, hrun]
          exact Or.inl rfl
        · rw [hanswer, hrun]
          by_cases hours : item.queueRef = queue
          · exact Or.inl (if_pos hours)
          · exact Or.inr ⟨lane, row, item, hc, hclaims, hours, if_neg hours, rfl⟩
    · exact Or.inl rfl
  · exact Or.inl rfl

/-- What is handed out past a waiting queue was pending when the wait began, and nothing is handed
    out twice. -/
theorem Waits.passing {calls : List (Call sharding)} (hwaits : Waits queue ours s calls)
    (hs : s.Sound) (hsharding : s.sharding = sharding)
    (hlate : ∀ c ∈ calls, since ≤ c.clock.storeNow) (hended : ours.lockedUntil < since)
    (h : s.Rivals queue.shard since pool served) :
    ((told (Call.passing queue) s calls).map (·.id)).Nodup ∧
      ∀ item ∈ told (Call.passing queue) s calls, item.id ∉ served ∧ item.queueRef ≠ queue ∧
        ∃ old ∈ pool, item.Is old := by
  induction calls generalizing s served with
  | nil => exact ⟨.nil, fun item hi => absurd hi List.not_mem_nil⟩
  | cons c rest ih =>
    obtain ⟨hclaimable, -, hrest⟩ := hwaits
    obtain ⟨hs', hsharding'⟩ := c.run_sound hs hsharding
    have hnow : since ≤ c.clock.storeNow := hlate c List.mem_cons_self
    have hlater : ∀ d ∈ rest, since ≤ d.clock.storeNow :=
      fun d hd => hlate d (List.mem_cons_of_mem _ hd)
    show (((c.passing queue s ++ told _ _ rest).map _).Nodup) ∧
      ∀ item ∈ c.passing queue s ++ told _ _ rest, _
    rcases c.passing_cases hs queue with
      hnone | ⟨lane, row, item, hc, hclaims, hother, hpassing, hrun⟩
    · rw [hnone]
      obtain ⟨events, hmoves, -⟩ := c.traced hs hsharding
      have hafter := hmoves.keeps (fun hs move hr => move.rivals hs hnow hr) hs h
      exact ih hrest hs' hsharding' hlater hafter
    · obtain ⟨lane', hl, hrow, hfree⟩ := hclaimable hc
      obtain rfl := Option.some.inj (hl.symm.trans hclaims.here)
      obtain ⟨hnew, hold, hafter⟩ :=
        h.pass hs hnow hclaims (Lane.mem_of_row? hrow).1 hfree hended
      rw [← hrun] at hafter
      obtain ⟨hnodup, hrests⟩ := ih hrest hs' hsharding' hlater hafter
      rw [hpassing]
      refine ⟨List.nodup_cons.2 ⟨?_, hnodup⟩, ?_⟩
      · intro hagain
        obtain ⟨again, ha, hid⟩ := List.mem_map.1 hagain
        refine (hrests again ha).1 (List.mem_append_right _ ?_)
        exact List.mem_singleton.2 hid
      · intro other ho
        rcases List.mem_cons.1 ho with rfl | ho
        · obtain ⟨old, hin, hsame⟩ := hold
          exact ⟨hnew, hother, old, hin, .trans (.attempted item _) hsame⟩
        · obtain ⟨hout, hqueue, hfrom⟩ := hrests other ho
          exact ⟨fun hin => hout (List.mem_append_left _ hin), hqueue, hfrom⟩

/-- From a poll that finds a queue claimable on, as long as the queue waits and the clock does not
    fall behind that poll, every item that is handed out past it was pending on the shard at that
    poll and is handed out only once, so the queue is passed over at most once for each of them. -/
theorem passed_over_once_for_each_pending (calls : List (Call sharding)) (clock : Clock)
    (later : List (Call sharding)) (hclock : ∀ c ∈ later, clock.storeNow ≤ c.clock.storeNow)
    (hwaits : Waits queue row (reached calls) (Call.poll queue.shard clock :: later)) :
    let passing := told (Call.passing queue) (reached calls) (Call.poll queue.shard clock :: later)
    (∀ item ∈ passing, ∃ old ∈ (reached calls).others queue, item.Is old) ∧
      (passing.map (·.id)).Nodup ∧ passing.length ≤ ((reached calls).others queue).length := by
  intro passing
  obtain ⟨hs, hsharding⟩ := reached_sound calls
  obtain ⟨lane, hl, -, hfree⟩ := hwaits.1 rfl
  obtain ⟨hmem, hshard⟩ := mem_of_lane? hl
  have hstart : (reached calls).Rivals queue.shard clock.storeNow lane.items [] := by
    refine ⟨(hs.lanes lane hmem).below, fun id hin => absurd hin List.not_mem_nil, ?_⟩
    intro other ho hother
    rw [hs.lane_eq ho hmem (hother.trans hshard.symm)]
    exact (hs.lanes lane hmem).rivals _
  have hlate : ∀ c ∈ Call.poll queue.shard clock :: later, clock.storeNow ≤ c.clock.storeNow := by
    intro c hc
    rcases List.mem_cons.1 hc with rfl | hc
    · exact Int.le_refl _
    · exact hclock c hc
  obtain ⟨hnodup, hfrom⟩ := hwaits.passing hs hsharding hlate hfree.1 hstart
  have hothers : ∀ item ∈ passing, ∃ old ∈ (reached calls).others queue, item.Is old := by
    intro item hi
    obtain ⟨-, hqueue, old, ho, hsame⟩ := hfrom item hi
    refine ⟨old, ?_, hsame⟩
    unfold others
    rw [hl]
    refine List.mem_filter.2 ⟨ho, decide_eq_true fun hname => hqueue ?_⟩
    unfold WorkItem.queueRef
    rw [hsame.queueName, hsame.shard, (hs.lanes lane hmem).here old ho, hname, hshard]
  refine ⟨hothers, hnodup, ?_⟩
  have hsubset : passing.map (·.id) ⊆ ((reached calls).others queue).map (·.id) := by
    intro id hid
    obtain ⟨item, hi, rfl⟩ := List.mem_map.1 hid
    obtain ⟨old, ho, hsame⟩ := hothers item hi
    exact List.mem_map.2 ⟨old, ho, hsame.id.symm⟩
  have hle := (List.subperm_of_subset hnodup hsubset).length_le
  rwa [List.length_map, List.length_map] at hle

/-- Three items are filed, each in a queue of its own. -/
def threeFiled : List (Call .single) :=
  [⟨{ origin := ⟨10⟩ }, .operate (.enqueue "" { url := "http://a/1", queue := some "mail" })⟩,
   ⟨{ origin := ⟨11⟩ }, .operate (.enqueue "" { url := "http://a/2", queue := some "news" })⟩,
   ⟨{ origin := ⟨12⟩ }, .operate (.enqueue "" { url := "http://a/3", queue := some "orders" })⟩]

/-- The shard is polled once more, an item is filed in the first queue, and its head completes. -/
def othersGoOn : List (Call .single) :=
  [⟨{ origin := ⟨21⟩ }, .operate (.next ⟨0, 1⟩)⟩,
   ⟨{ origin := ⟨22⟩ }, .operate (.enqueue "" { url := "http://a/4", queue := some "mail" })⟩,
   ⟨{ origin := ⟨23⟩ }, .operate (.complete 1 ⟨0, 1⟩)⟩]

theorem passed_over_for_two_of_three :
    let passing := told (Call.passing ⟨"orders", ⟨0, 1⟩⟩) (reached threeFiled)
      (Call.poll ⟨0, 1⟩ { origin := ⟨20⟩ } :: othersGoOn)
    Waits ⟨"orders", ⟨0, 1⟩⟩ (.start "orders" 3 ⟨12⟩) (reached threeFiled)
        (Call.poll ⟨0, 1⟩ { origin := ⟨20⟩ } :: othersGoOn) ∧
      passing.map (·.id) = [1, 2] ∧
      passing.length ≤ ((reached threeFiled).others ⟨"orders", ⟨0, 1⟩⟩).length := by
  have hwaits : Waits ⟨"orders", ⟨0, 1⟩⟩ (.start "orders" 3 ⟨12⟩) (reached threeFiled)
      (Call.poll ⟨0, 1⟩ { origin := ⟨20⟩ } :: othersGoOn) :=
    ⟨fun _ => ⟨_, rfl, rfl, by decide⟩, rfl, fun _ => ⟨_, rfl, rfl, by decide⟩, rfl,
      nofun, rfl, nofun, rfl, trivial⟩
  exact ⟨hwaits, rfl, (passed_over_once_for_each_pending threeFiled { origin := ⟨20⟩ } othersGoOn
    (by decide) hwaits).2.2⟩

end Store

end Courier
