/-
  Courier/Proofs/Store/Independence.lean
  ======================================
  **Operations on different shards are independent.**

  An operation on a shard reads that shard's lane and the next item number, and all
  that it writes elsewhere are messages at the end of mailboxes.  So two operations
  on different shards may change places (`Store.shards_are_independent`): each gives
  the same answer, and the lanes end up the same.  Two things are left over from the
  order in which they ran.  If both made a placeholder, the two new numbers are
  exchanged (`Store.exchange`).  And what the two posted arrives in the other order,
  but the messages are about items of different shards, so that a mailbox comes to
  the same blocks once it is read (`Lane.agrees_receive`).  A poll is the only
  operation that reads its mailbox, and so must not be posted to by the other one.
-/
import Courier.Proofs.Store.Parametric

namespace Courier

open Courier.Time

/-! ### Lanes and stores that agree -/

/-- Whether two lanes differ at most by the order of their mailboxes, and come to the same blocks
    once the mailboxes are read. -/
structure Lane.Agrees (a b : Lane) : Prop where
  shard : a.shard = b.shard
  items : a.items = b.items
  completed : a.completed = b.completed
  rows : a.rows = b.rows
  blocks : a.blocks = b.blocks
  mailbox : a.mailbox.Perm b.mailbox
  drained : ∀ name, (a.poll.blockedBy name).Perm (b.poll.blockedBy name)

/-- Whether the lanes of two stores agree, and all else of them is the same. -/
structure Store.Agrees (a b : Store) : Prop where
  sharding : a.sharding = b.sharding
  jobs : a.jobs = b.jobs
  nextId : a.nextId = b.nextId
  lanes : List.Forall₂ Lane.Agrees a.lanes b.lanes

theorem Lane.Agrees.refl (l : Lane) : l.Agrees l :=
  ⟨rfl, rfl, rfl, rfl, rfl, .refl _, fun _ => .refl _⟩

theorem Store.Agrees.refl (s : Store) : s.Agrees s :=
  ⟨rfl, rfl, rfl, List.forall₂_same.2 fun lane _ => .refl lane⟩

namespace Lane

variable {l : Lane} {messages more : List BlockingMessage}

/-- Messages about items of different shards may arrive in either order. -/
theorem agrees_receive (hnodup : ∀ name, (l.replayed name).Nodup) {here there : Shard}
    (hapart : here ≠ there) (hhere : ∀ m ∈ messages, m.token.shard = here)
    (hthere : ∀ m ∈ more, m.token.shard = there) :
    ((l.receive messages).receive more).Agrees ((l.receive more).receive messages) where
  shard := rfl
  items := rfl
  completed := rfl
  rows := rfl
  blocks := rfl
  mailbox := by
    rw [receive_receive, receive_receive]
    refine List.Perm.append_left _ ?_
    rw [List.filter_append, List.filter_append]
    exact List.perm_append_comm
  drained name := by
    rw [blockedBy_poll, blockedBy_poll]
    refine (List.perm_ext_iff_of_nodup ?_ ?_).2 fun token => ?_
    · exact nodup_replayed_receive (nodup_replayed_receive (hnodup name) _) _
    · exact nodup_replayed_receive (nodup_replayed_receive (hnodup name) _) _
    · rw [mem_replayed_receive, mem_replayed_receive, mem_replayed_receive, mem_replayed_receive]
      -- whichever shard the token is of, the messages of the other one say nothing of it
      by_cases hshard : token.shard = here
      · have hother : ∀ m ∈ more, m.token ≠ token := fun m hm hsame =>
          hapart ((hsame ▸ hshard).symm.trans (hthere m hm))
        rw [blocksAfter_of_ne hother, blocksAfter_of_ne hother]
        exact Iff.rfl
      · have hother : ∀ m ∈ messages, m.token ≠ token := fun m hm hsame =>
          hshard (hsame ▸ hhere m hm)
        rw [blocksAfter_of_ne hother, blocksAfter_of_ne hother]
        exact Iff.rfl

/-- A lane to which nothing is posted receives nothing. -/
theorem receive_of_unposted (h : messages.filter (·.target.shard = l.shard) = []) :
    l.receive messages = l := by
  unfold receive
  rw [h, List.append_nil]

/-- An operation does the same before messages arrive and after, unless it is a poll and they arrive
    at its lane. -/
theorem respond_after_receive {now : Instant} {fresh : WorkItemId} {operation : Operation}
    (hread : ∀ shard, operation = .next shard → messages.filter (·.target.shard = l.shard) = []) :
    (l.receive messages).respond now fresh operation =
      (l.respond now fresh operation).receive messages := by
  by_cases hnext : ∃ shard, operation = .next shard
  · obtain ⟨shard, hnext⟩ := hnext
    have hunposted := hread shard hnext
    have hlane : (l.respond now fresh operation).lane.receive messages =
        (l.respond now fresh operation).lane :=
      receive_of_unposted ((l.sameBlocks_respond now fresh operation).shard.symm ▸ hunposted)
    rw [receive_of_unposted hunposted]
    unfold Response.receive
    rw [hlane]
  · exact respond_receive (fun shard h => hnext ⟨shard, h⟩) messages

end Lane

/-! ### Exchanging two new numbers -/

/-- The exchange of two new numbers, if each of two operations that began with the same next number
    used up one; `next` and `next'` are the next numbers that they left. -/
def Store.exchange (fresh next next' : WorkItemId) : Equiv.Perm WorkItemId :=
  if fresh < next ∧ fresh < next' then Equiv.swap fresh (fresh + 1) else Equiv.refl _

theorem Store.exchange_comm (fresh next next' : WorkItemId) :
    exchange fresh next next' = exchange fresh next' next :=
  if_congr and_comm rfl rfl

/-- Numbers that were given out before stay as they are. -/
theorem Store.exchange_of_lt {fresh id : WorkItemId} (h : id < fresh) (next next' : WorkItemId) :
    exchange fresh next next' id = id := by
  unfold exchange
  split
  · exact Equiv.swap_apply_of_ne_of_ne (Int.ne_of_lt h)
      (Int.ne_of_lt (Int.lt_trans h (Int.lt_succ fresh)))
  · rfl

namespace Lane

variable {l : Lane}

theorem Response.renumber_refl (response : Response) :
    response.renumber (Equiv.refl _) = response := by
  have hmessages : response.messages.map (·.renumber (Equiv.refl _)) = response.messages :=
    List.map_id _
  unfold Response.renumber
  rw [Lane.renumber_refl, hmessages]

variable {sharding : Sharding} {fresh : WorkItemId} {response : WorkItemId → Response}

theorem Parametric.used (h : l.Parametric response) (fresh : WorkItemId) :
    (response fresh).used = 0 ∨ (response fresh).used = 1 :=
  h.imp (fun h => (h fresh).1) fun h => (h fresh).1

/-- What an operation responds after another one is what it responds before, with the new numbers
    exchanged, and the other way around. -/
theorem Parametric.exchange (h : l.Parametric response) (hs : l.Sound sharding fresh)
    (hn : l.Numbered fresh) {used : Int} (hused : used = 0 ∨ used = 1) {r : Equiv.Perm WorkItemId}
    (hr : r = Store.exchange fresh (fresh + (response fresh).used) (fresh + used)) :
    (response fresh).renumber r = response (fresh + used) ∧
      (response (fresh + used)).renumber r = response fresh := by
  have hlater : fresh < fresh + 1 := Int.lt_succ fresh
  rcases h with hconst | hspends
  · obtain ⟨hzero, hsame⟩ := hconst fresh
    rw [hzero, Int.add_zero] at hr
    have hrefl : r = Equiv.refl _ := hr.trans (if_neg fun hboth => Int.lt_irrefl fresh hboth.1)
    rw [hrefl, hsame (fresh + used), Response.renumber_refl]
    exact ⟨rfl, rfl⟩
  · rcases hused with rfl | rfl
    · -- the other operation uses up none, so the next number is the same
      rw [Int.add_zero] at hr ⊢
      have hrefl : r = Equiv.refl _ := hr.trans (if_neg fun hboth => Int.lt_irrefl fresh hboth.2)
      rw [hrefl, Response.renumber_refl]
      exact ⟨rfl, rfl⟩
    · rw [(hspends fresh).1] at hr
      have hswap : r = Equiv.swap fresh (fresh + 1) := hr.trans (if_pos ⟨hlater, hlater⟩)
      -- the lane mentions neither of the two new numbers
      have hold : l.renumber r = l :=
        renumber_eq_self hs hn fun id hid => hr ▸ Store.exchange_of_lt hid _ _
      rw [← (hspends fresh).2 r hold, ← (hspends (fresh + 1)).2 r hold, hswap,
        Equiv.swap_apply_left, Equiv.swap_apply_right]
      exact ⟨rfl, rfl⟩

end Lane

namespace Store

variable {sharding : Sharding} {s : Store} {a b : Lane.Response}

/-! ### Two responses one after another -/

/-- What two responses make of a lane, apart from what they post. -/
def placed (a b : Lane.Response) (lane : Lane) : Lane :=
  if lane.shard = a.lane.shard then a.lane
  else if lane.shard = b.lane.shard then b.lane else lane

theorem placed_comm (hne : a.lane.shard ≠ b.lane.shard) (lane : Lane) :
    placed a b lane = placed b a lane := by
  unfold placed
  by_cases ha : lane.shard = a.lane.shard
  · have hb : ¬ lane.shard = b.lane.shard := fun h => hne (ha.symm.trans h)
    simp only [if_pos ha, if_neg hb]
  · simp only [if_neg ha]

theorem renumber_placed (r : Equiv.Perm WorkItemId) (a b : Lane.Response) {lane : Lane}
    (hr : lane.renumber r = lane) :
    (placed a b lane).renumber r = placed (a.renumber r) (b.renumber r) lane := by
  unfold placed
  show _ = if lane.shard = a.lane.shard then a.lane.renumber r
    else if lane.shard = b.lane.shard then b.lane.renumber r else lane
  split
  · rfl
  · split
    · rfl
    · exact hr

theorem sameBlocks_placed (hs : s.Sound) {lane other third : Lane} (hl : lane ∈ s.lanes)
    (ho : other ∈ s.lanes) (ha : lane.SameBlocks a.lane) (hb : other.SameBlocks b.lane)
    (hthird : third ∈ s.lanes) : third.SameBlocks (placed a b third) := by
  unfold placed
  split
  · rename_i hshard
    rw [hs.lane_eq hthird hl (hshard.trans ha.shard)]
    exact ha
  · split
    · rename_i hshard
      rw [hs.lane_eq hthird ho (hshard.trans hb.shard)]
      exact hb
    · exact ⟨rfl, fun _ => rfl⟩

/-- Two responses on different lanes, of which the second one came after what the first one
    posted. -/
theorem lanes_take_take (hne : a.lane.shard ≠ b.lane.shard) :
    ((s.take a).2.take (b.receive a.messages)).2.lanes =
      s.lanes.map fun lane => ((placed a b lane).receive a.messages).receive b.messages := by
  unfold take replace deliver setLane placed Lane.Response.receive
  simp only [List.map_map]
  refine List.map_congr_left fun lane _ => ?_
  dsimp only [Function.comp_apply]
  by_cases ha : lane.shard = a.lane.shard
  · have hkept : ¬ (a.lane.receive a.messages).shard = (b.lane.receive a.messages).shard := hne
    simp only [if_pos ha, if_neg hkept]
  · by_cases hb : lane.shard = b.lane.shard
    · have hhere : (lane.receive a.messages).shard = (b.lane.receive a.messages).shard := hb
      simp only [if_neg ha, if_pos hb, if_pos hhere]
    · have hother : ¬ (lane.receive a.messages).shard = (b.lane.receive a.messages).shard := hb
      simp only [if_neg ha, if_neg hb, if_neg hother]

/-- Responses on different lanes, in either order, leave stores that agree, if their new numbers are
    exchanged and what they post is about items of different shards. -/
theorem take_take_agrees {r : Equiv.Perm WorkItemId} {a' b' : Lane.Response} {here there : Shard}
    (hold : ∀ lane ∈ s.lanes, lane.renumber r = lane) (ha : a.renumber r = a')
    (hb : b.renumber r = b') (hne : a.lane.shard ≠ b.lane.shard)
    (hnodup : ∀ lane ∈ s.lanes, ∀ name, ((placed a' b' lane).replayed name).Nodup)
    (hapart : here ≠ there) (hhere : ∀ m ∈ a'.messages, m.token.shard = here)
    (hthere : ∀ m ∈ b'.messages, m.token.shard = there) :
    (((s.take a).2.take (b.receive a.messages)).2.renumber r).Agrees
      ((s.take b').2.take (a'.receive b'.messages)).2 := by
  subst ha hb
  constructor
  case sharding => rfl
  case jobs => rfl
  case nextId =>
    show s.nextId + a.used + b.used = s.nextId + b.used + a.used
    exact Int.add_right_comm _ _ _
  case lanes =>
    have hrenumber : (((s.take a).2.take (b.receive a.messages)).2.renumber r).lanes =
        s.lanes.map fun lane => ((placed (a.renumber r) (b.renumber r) lane).receive
          (a.renumber r).messages).receive (b.renumber r).messages := by
      unfold Store.renumber
      rw [lanes_take_take hne, List.map_map]
      refine List.map_congr_left fun lane hl => ?_
      rw [Function.comp_apply, Lane.renumber_receive, Lane.renumber_receive,
        renumber_placed r a b (hold lane hl)]
      rfl
    have hne' : (b.renumber r).lane.shard ≠ (a.renumber r).lane.shard := hne.symm
    rw [hrenumber, lanes_take_take hne', List.forall₂_map_left_iff, List.forall₂_map_right_iff,
      List.forall₂_same]
    intro lane hl
    rw [placed_comm hne']
    exact Lane.agrees_receive (hnodup lane hl) hapart hhere hthere

/-- Whether an operation posts to the mailbox of a shard that it is not about. -/
def PostsTo (clock : Clock) (s : Store) (operation : Operation) (shard : Shard) : Prop :=
  ((operation.run clock s).2.lane? shard).map (·.mailbox) ≠ (s.lane? shard).map (·.mailbox)

/-- Whether it makes no difference which of two operations runs first: both answer the same, and the
    stores that they leave agree, up to the exchange of two new numbers. -/
structure Interchange (clock : Clock) (s : Store) (f g : Operation) : Prop where
  first : (f.run clock (g.run clock s).2).1 = (f.run clock s).1
  second : (g.run clock (f.run clock s).2).1 = (g.run clock s).1
  left : ((g.run clock (f.run clock s).2).2.renumber
    (exchange s.nextId (f.run clock s).2.nextId (g.run clock s).2.nextId)).Agrees
      (f.run clock (g.run clock s).2).2

variable {here there : Shard} {lane other : Lane} {clock : Clock} {f g : Operation}

/-- The lane of another shard after a response. -/
theorem lane?_take (hl : s.lane? here = some lane) (hne : a.lane.shard ≠ here) :
    (s.take a).2.lane? here = some (lane.receive a.messages) := by
  have hother : ¬ here = a.lane.shard := fun h => hne h.symm
  unfold take
  rw [lane?_replace, if_neg hother, hl]
  rfl

theorem filter_of_not_postsTo (hl : s.lane? here = some lane) (hrun : g.run clock s = s.take a)
    (hne : a.lane.shard ≠ here) (h : ¬ PostsTo clock s g here) :
    a.messages.filter (·.target.shard = lane.shard) = [] := by
  have hmailbox : lane.mailbox ++ a.messages.filter (·.target.shard = lane.shard) =
      lane.mailbox := by
    unfold PostsTo at h
    rw [hrun, lane?_take hl hne, hl] at h
    exact Option.some.inj (not_not.1 h)
  exact List.append_right_eq_self.1 hmailbox

theorem run_sound (hs : s.Sound) (operation : Operation) (clock : Clock) :
    (operation.run clock s).2.Sound ∧ (operation.run clock s).2.sharding = s.sharding :=
  Call.run_sound (⟨clock, .operate operation⟩ : Call s.sharding) hs rfl

/-- An operation after a response of another lane. -/
theorem run_after_take (hf : f.shard? = some here) (hl : s.lane? here = some lane)
    (hrun : g.run clock s = s.take a) (hs : s.Sound) (hne : a.lane.shard ≠ here)
    (hread : f = .next here → ¬ PostsTo clock s g here) :
    f.run clock (s.take a).2 = (s.take a).2.take
      ((lane.respond clock.storeNow (s.nextId + a.used) f).receive a.messages) := by
  have hsound : (s.take a).2.Sound := hrun ▸ (run_sound hs g clock).1
  rw [f.run_eq_take hsound hf (lane?_take hl hne) clock]
  refine congrArg (s.take a).2.take (Lane.respond_after_receive fun shard hnext => ?_)
  have hhere : shard = here := by
    rw [hnext] at hf
    exact Option.some.inj hf
  exact filter_of_not_postsTo hl hrun hne (hread (hhere ▸ hnext))

theorem interchange_of_lanes (hs : s.Sound) (hn : ∀ lane ∈ s.lanes, lane.Numbered s.nextId)
    (hb : s.Balanced) (hf : f.shard? = some here) (hg : g.shard? = some there)
    (hl : s.lane? here = some lane) (ho : s.lane? there = some other) (hapart : here ≠ there)
    (hreadf : f = .next here → ¬ PostsTo clock s g here)
    (hreadg : g = .next there → ¬ PostsTo clock s f there) : Interchange clock s f g := by
  obtain ⟨hlmem, rfl⟩ := mem_of_lane? hl
  obtain ⟨homem, rfl⟩ := mem_of_lane? ho
  let F := fun fresh => lane.respond clock.storeNow fresh f
  let G := fun fresh => other.respond clock.storeNow fresh g
  have hF : lane.Parametric F := lane.parametric_respond _ f
  have hG : other.Parametric G := other.parametric_respond _ g
  have hfShard : ∀ fresh, (F fresh).lane.shard = lane.shard := fun fresh =>
    (lane.sameBlocks_respond _ fresh f).shard
  have hgShard : ∀ fresh, (G fresh).lane.shard = other.shard := fun fresh =>
    (other.sameBlocks_respond _ fresh g).shard
  have hfRun : f.run clock s = s.take (F s.nextId) := f.run_eq_take hs hf hl clock
  have hgRun : g.run clock s = s.take (G s.nextId) := g.run_eq_take hs hg ho clock
  have hfAfter := run_after_take hf hl hgRun hs (hgShard _ ▸ hapart.symm) hreadf
  have hgAfter := run_after_take hg ho hfRun hs (hfShard _ ▸ hapart) hreadg
  let r := exchange s.nextId (s.take (F s.nextId)).2.nextId (s.take (G s.nextId)).2.nextId
  have hold : ∀ lane ∈ s.lanes, lane.renumber r = lane := fun lane hlane =>
    Lane.renumber_eq_self (hs.lanes lane hlane) (hn lane hlane) fun id hid =>
      exchange_of_lt hid _ _
  -- `F` and `G` run under the next number, or under the one that the other of them left
  have hFr : (F s.nextId).renumber r = F (s.nextId + (G s.nextId).used) :=
    (hF.exchange (hs.lane hl) (hn lane hlmem) (hG.used _) rfl).1
  have hGr : (G (s.nextId + (F s.nextId).used)).renumber r = G s.nextId :=
    (hG.exchange (hs.lane ho) (hn other homem) (hF.used _) (exchange_comm _ _ _)).2
  have hfAnswer : (F (s.nextId + (G s.nextId).used)).answer = (F s.nextId).answer := by
    rw [← hFr]
    rfl
  have hgAnswer : (G (s.nextId + (F s.nextId).used)).answer = (G s.nextId).answer := by
    rw [← hGr]
    rfl
  constructor
  case first =>
    rw [hgRun, hfAfter, hfRun]
    exact hfAnswer
  case second =>
    rw [hfRun, hgAfter, hgRun]
    exact hgAnswer
  case left =>
    rw [hfRun, hgRun, hfAfter, hgAfter]
    refine take_take_agrees hold hFr hGr ?_ ?_ hapart ?_ ?_
    · rw [hfShard, hgShard]
      exact hapart
    · intro third hthird name
      have hsame := sameBlocks_placed hs hlmem homem
        (lane.sameBlocks_respond clock.storeNow (s.nextId + (G s.nextId).used) f)
        (other.sameBlocks_respond clock.storeNow s.nextId g) hthird
      rw [hsame.replayed]
      exact (hb third hthird name).1
    · exact Lane.token_shard_respond (hs.lane hl) f
    · exact Lane.token_shard_respond (hs.lane ho) g

/-- No operation makes a lane for a shard of another deployment. -/
theorem lane?_run_eq_none (hs : s.Sound) (hl : s.lane? here = none) (operation : Operation)
    (clock : Clock) : (operation.run clock s).2.lane? here = none := by
  obtain ⟨hs', hsharding⟩ := run_sound hs operation clock
  cases hl' : (operation.run clock s).2.lane? here with
  | none => rfl
  | some lane' =>
    obtain ⟨hmem, rfl⟩ := mem_of_lane? hl'
    have hknown : lane'.shard ∈ s.sharding.shards :=
      hsharding ▸ hs'.shards ▸ List.mem_map_of_mem hmem
    obtain ⟨lane, hlane⟩ := hs.exists_lane hknown
    rw [hl] at hlane
    cases hlane

/-- An operation on a shard of another deployment does nothing, whenever it runs. -/
theorem interchange_of_unknown (hs : s.Sound) (hf : f.shard? = some here)
    (hl : s.lane? here = none) : Interchange clock s f g ∧ Interchange clock s g f := by
  have hfirst := f.run_of_unknown hf hl clock
  have hlater := f.run_of_unknown hf (lane?_run_eq_none hs hl g clock) clock
  have hrefl : exchange s.nextId s.nextId (g.run clock s).2.nextId = Equiv.refl _ :=
    if_neg fun hboth => Int.lt_irrefl _ hboth.1
  constructor
  · constructor
    · rw [hfirst, hlater]
    · rw [hfirst]
    · rw [hfirst, hlater, hrefl, renumber_refl]
      exact .refl _
  · constructor
    · rw [hfirst]
    · rw [hfirst, hlater]
    · rw [hfirst, hlater, exchange_comm, hrefl, renumber_refl]
      exact .refl _

/-- In every reachable store it makes no difference which of two operations on different shards runs
    first, unless one of them is a poll of a shard to which the other one posts. -/
theorem shards_are_independent (calls : List (Call sharding)) (clock : Clock)
    (hf : f.shard? = some here) (hg : g.shard? = some there) (hapart : here ≠ there)
    (hreadf : f = .next here → ¬ PostsTo clock (reached calls) g here)
    (hreadg : g = .next there → ¬ PostsTo clock (reached calls) f there) :
    Interchange clock (reached calls) f g := by
  obtain ⟨hs, -⟩ := reached_sound calls
  cases hl : (reached calls).lane? here with
  | none => exact (interchange_of_unknown hs hf hl).1
  | some lane =>
    cases ho : (reached calls).lane? there with
    | none => exact (interchange_of_unknown hs hg ho).2
    | some other =>
      exact interchange_of_lanes hs (reached_numbered calls) (reached_balanced calls) hf hg hl ho
        hapart hreadf hreadg

/-- An item that blocks a queue of another shard is claimed, and its queue is paused. -/
def pausedWhileBlocking : List (Call { count := 4 }) :=
  [⟨{ origin := ⟨10⟩ },
      .operate (.enqueue "" { url := "http://h/1", queue := some "b", blocks := some "a" })⟩,
   ⟨{ origin := ⟨11⟩ }, .operate (.next ⟨1, 4⟩)⟩,
   ⟨{ origin := ⟨12⟩ }, .operate (.pause ⟨"b", ⟨1, 4⟩⟩)⟩]

/-- The item completes and leaves a placeholder that blocks the queue of another shard, which is
    locked and gets a placeholder of its own. -/
theorem completion_and_lock_change_places :
    Interchange { origin := ⟨13⟩ } (reached pausedWhileBlocking) (.complete 1 ⟨1, 4⟩)
      (.lock ⟨"a", ⟨0, 4⟩⟩ "audit") ∧
    exchange (reached pausedWhileBlocking).nextId
      (Operation.run { origin := ⟨13⟩ } (reached pausedWhileBlocking) (.complete 1 ⟨1, 4⟩)).2.nextId
      (Operation.run { origin := ⟨13⟩ } (reached pausedWhileBlocking)
        (.lock ⟨"a", ⟨0, 4⟩⟩ "audit")).2.nextId = Equiv.swap 2 3 := by
  refine ⟨shards_are_independent pausedWhileBlocking _ rfl rfl (by decide) ?_ ?_, ?_⟩
  · exact fun h => by cases h
  · exact fun h => by cases h
  · unfold exchange
    have hnext : (reached pausedWhileBlocking).nextId = 2 := by decide +kernel
    rw [hnext]
    exact if_pos (by decide +kernel)

end Store

end Courier
