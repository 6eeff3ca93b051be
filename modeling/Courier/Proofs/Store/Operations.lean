/-
  Courier/Proofs/Store/Operations.lean
  ====================================
  **The moves of each operation.**

  Filing an item is one move or none, claiming one is a poll and a claim, and
  reserving a queue comes before a change to its row.  Most operations neither file
  nor complete anything, give up no lease and remove nothing: they idle
  (`Store.Idles`).  An item that is handed out is the head of a claimable queue
  (`Store.next_eq_some`).
-/
import Courier.Proofs.Store.Perform

namespace Courier

open Courier.Time

/-! ### What an event tells -/

namespace Event

/-- The number under which an item was filed in a queue, if one was. -/
def filedIn (queue : QueueRef) : Event → List WorkItemId
  | .filed id target => if target = queue then [id] else []
  | _ => []

/-- The item that was completed, if one was. -/
def retired : Event → List WorkItem
  | .completed item => [item]
  | _ => []

/-- Whether the lease of a queue was given up. -/
def Frees (queue : QueueRef) : Event → Prop
  | .changed target .reset => target = queue
  | .changed target .fail => target = queue
  | .changed target .delay => target = queue
  | .completed item => item.queueRef = queue
  | .cleared => True
  | _ => False

/-- Whether nothing was filed, nothing completed and no lease given up. -/
def Silent : Event → Prop
  | .filed _ _ => False
  | .changed _ .reset => False
  | .changed _ .fail => False
  | .changed _ .delay => False
  | .completed _ => False
  | .cleared => False
  | _ => True

/-- Whether moreover no lock was taken back, nothing removed and no job recorded. -/
def Idle : Event → Prop
  | .released _ => False
  | .purged _ => False
  | .recorded => False
  | event => event.Silent

theorem Silent.tells_nothing {event : Event} (h : event.Silent) (queue : QueueRef) :
    event.filedIn queue = [] ∧ event.retired = [] ∧ ¬ event.Frees queue ∧ event ≠ .cleared := by
  cases event with
  | changed target c => cases c <;> simp_all [Silent, filedIn, retired, Frees]
  | _ => simp_all [Silent, filedIn, retired, Frees]

theorem Idle.silent {event : Event} (h : event.Idle) : event.Silent := by
  cases event with
  | released item => exact h.elim
  | purged shard => exact h.elim
  | recorded => exact h.elim
  | _ => exact h

end Event

namespace Store

variable {s : Store} {now : Instant} {lane lane' : Lane}

/-! ### Moves that replace a lane -/

/-- What an item blocks is on a shard of the deployment. -/
theorem Sound.known_target (hs : s.Sound) (mem : lane ∈ s.lanes) {item : WorkItem}
    (hitem : item ∈ lane.items) :
    ∀ target, item.blocking = .queue target → target.shard ∈ s.lanes.map (·.shard) := by
  intro target ht
  rw [hs.shards, ((hs.lanes lane mem).targets item hitem target ht).1]
  exact s.sharding.shardFor_mem_shards target.name

theorem Move.setLane {event : Event} (mem : lane ∈ s.lanes)
    (step : lane.Step s.sharding now s.nextId event lane' 0 []) :
    Move now s event (s.setLane lane') :=
  replace_zero_nil s lane' ▸ Move.lane mem step

theorem updateLane_setLane (s : Store) (lane : Lane) {f : Lane → Lane}
    (hshard : (f lane).shard = lane.shard) :
    (s.setLane lane).updateLane lane.shard f = s.setLane (f lane) := by
  have hstep := updateLane_replace s lane 0 [] hshard (by rw [Lane.receive_nil, Lane.receive_nil])
  rwa [replace_zero_nil, replace_zero_nil] at hstep

theorem Sound.updateLane_eq (hs : s.Sound) (mem : lane ∈ s.lanes) {f : Lane → Lane}
    (hshard : (f lane).shard = lane.shard) : s.updateLane lane.shard f = s.setLane (f lane) := by
  rw [← updateLane_setLane s lane hshard, hs.setLane_self mem]

theorem mem_setLane (mem : lane ∈ s.lanes) (hshard : lane'.shard = lane.shard) :
    lane' ∈ (s.setLane lane').lanes :=
  List.mem_map.2 ⟨lane, mem, if_pos hshard.symm⟩

theorem lane?_setLane_self {shard : Shard} (hl : s.lane? shard = some lane)
    (hshard : lane'.shard = lane.shard) : (s.setLane lane').lane? shard = some lane' := by
  rw [lane?_setLane, if_pos ((mem_of_lane? hl).2.symm.trans hshard.symm), hl]
  rfl

/-- A change to the row of a queue is a move. -/
theorem Move.updateRow {name : String} {c : RowChange} (mem : lane ∈ s.lanes)
    (fits : ∀ row, lane.row? name = some row → c.Fits row) :
    Move now s (.changed ⟨name, lane.shard⟩ c) (s.setLane (lane.updateRow name (c.apply now))) :=
  Move.setLane mem (.change fits)

/-! ### Moves that only idle -/

/-- Whether a store comes from another by moves that file, complete and remove nothing and give up
    no lease. -/
def Idles (now : Instant) (s s' : Store) : Prop :=
  ∃ events, Moves now s events s' ∧ ∀ event ∈ events, event.Idle

theorem Idles.refl (s : Store) : Idles now s s := ⟨[], .nil s, fun event he => by cases he⟩

theorem Idles.single {s' : Store} {event : Event} (move : Move now s event s')
    (hidle : event.Idle) : Idles now s s' := by
  refine ⟨[event], .single move, ?_⟩
  intro other ho
  rw [List.mem_singleton.1 ho]
  exact hidle

theorem Idles.trans {s' s'' : Store} (h : Idles now s s') (h' : Idles now s' s'') :
    Idles now s s'' := by
  obtain ⟨events, hmoves, hidle⟩ := h
  obtain ⟨more, hmore, hidle'⟩ := h'
  refine ⟨events ++ more, hmoves.append hmore, ?_⟩
  intro event he
  rcases List.mem_append.1 he with hold | hnew
  · exact hidle event hold
  · exact hidle' event hnew

/-- An operation on a shard of another deployment does nothing. -/
theorem withLane_idles {α : Type} {shard : Shard} {f : Lane → Answer Store α}
    (h : ∀ lane, s.lane? shard = some lane → Idles now s (f lane).2) :
    Idles now s (s.withLane shard f).2 := by
  unfold withLane
  cases hl : s.lane? shard with
  | none => exact .refl s
  | some lane => exact h lane hl

/-! ### Filing -/

/-- What filing an item that had this result was about. -/
def filingEvents : EnqueueResult → List Event
  | .created id queue => [.filed id queue]
  | .duplicate _ _ => []

theorem filedIn_filingEvents (queue : QueueRef) (result : EnqueueResult) :
    (filingEvents result).flatMap (·.filedIn queue) = filedIn queue result := by
  cases result with
  | created id target => exact List.append_nil _
  | duplicate existing target => rfl

theorem postBlock_replace (hs : s.Sound) {blocking : Blocking} {token : BlockToken} {used : Int}
    (htarget : ∀ target, blocking = .queue target → target = .ofName s.sharding target.name) :
    (s.replace lane used []).postBlock blocking token =
      (.ok (), s.replace lane used (blocking.messages true token)) := by
  cases blocking with
  | none => rfl
  | queue target =>
    have hknown : target.shard ∈ s.lanes.map (·.shard) := by
      rw [hs.shards, htarget target rfl]
      exact s.sharding.shardFor_mem_shards target.name
    show (s.replace lane used []).post _ = _
    rw [post_eq_deliver (shards_replace s lane used [] ▸ hs.nodup)
      (shards_replace s lane used [] ▸ hknown), deliver_replace]
    rfl

/-- An item that is prepared for the deployment is found to be a duplicate, or it is filed under
    the next number. -/
theorem insert_cases (hs : s.Sound) {p : PreparedItem} (hp : p.IsFor s.sharding) (now : Instant) :
    ∃ lane, s.lane? p.queue.shard = some lane ∧
      ((∃ existing, lane.duplicate? p = some existing ∧
          s.insert now p = (.ok (.duplicate existing.id p.queue), s)) ∨
        lane.duplicate? p = none ∧
          s.insert now p = (.ok (.created s.nextId p.queue),
            s.replace (lane.addItem (p.toWorkItem s.nextId now)) 1
              (p.blocking.messages true ⟨s.nextId, lane.shard⟩))) := by
  obtain ⟨freshName, item, hprepare⟩ := hp
  obtain ⟨-, hqueue, htarget⟩ := NewItem.prepare_spec hprepare
  have hknown : p.queue.shard ∈ s.sharding.shards := by
    rw [hqueue]
    exact s.sharding.shardFor_mem_shards p.queue.name
  obtain ⟨lane, hlane⟩ := hs.exists_lane hknown
  obtain ⟨hmem, hshard⟩ := mem_of_lane? hlane
  refine ⟨lane, hlane, ?_⟩
  unfold insert withLane
  rw [hlane]
  dsimp only
  cases hdup : lane.duplicate? p with
  | some existing => exact Or.inl ⟨existing, rfl, rfl⟩
  | none =>
    have hstart : s.allocate.2 = s.replace lane 1 [] := by
      rw [replace_nil]
      exact (setLane_self (s := { s with nextId := s.nextId + 1 }) hs.nodup hmem).symm
    have hpost : (s.replace lane 1 []).postBlock p.blocking ⟨s.nextId, p.queue.shard⟩ =
        (.ok (), s.replace lane 1 (p.blocking.messages true ⟨s.nextId, p.queue.shard⟩)) :=
      postBlock_replace hs fun target ht => (htarget target ht).1
    refine Or.inr ⟨rfl, ?_⟩
    dsimp only
    rw [hstart, show s.allocate.1 = s.nextId from rfl, hpost, ← hshard]
    dsimp only
    rw [updateLane_replace s lane 1 _ (f := (·.addItem (p.toWorkItem s.nextId now))) rfl rfl]

/-- Filing an item is one move, or none. -/
theorem insert_moves (hs : s.Sound) {p : PreparedItem} (hp : p.IsFor s.sharding) (now : Instant) :
    ∃ result s', s.insert now p = (.ok result, s') ∧ Moves now s (filingEvents result) s' := by
  obtain ⟨lane, hlane, ⟨existing, -, hrun⟩ | ⟨hsingle, hrun⟩⟩ := insert_cases hs hp now
  · exact ⟨_, _, hrun, .nil s⟩
  · obtain ⟨hmem, hshard⟩ := mem_of_lane? hlane
    exact ⟨_, _, hrun, .single (Move.lane hmem (.file hp hshard.symm hsingle))⟩

/-- All items that a transaction has staged are filed or found to be duplicates. -/
theorem insertAll_moves (hs : s.Sound) {ps : List PreparedItem}
    (hps : ∀ p ∈ ps, p.IsFor s.sharding) (now : Instant) :
    ∃ s', s.insertAll now ps = (.ok (), s') ∧
      Moves now s ((s.insertResults now ps).flatMap filingEvents) s' := by
  induction ps generalizing s with
  | nil => exact ⟨s, rfl, .nil s⟩
  | cons p rest ih =>
    obtain ⟨result, s', hrun, hmoves⟩ := insert_moves hs (hps p List.mem_cons_self) now
    have hrest : ∀ q ∈ rest, q.IsFor s'.sharding := fun q hq =>
      hmoves.sharding ▸ hps q (List.mem_cons_of_mem _ hq)
    obtain ⟨s'', hruns, hmore⟩ := ih (hmoves.sound hs) hrest
    refine ⟨s'', ?_, ?_⟩
    · unfold insertAll
      rw [hrun]
      exact hruns
    · unfold insertResults
      rw [hrun]
      exact hmoves.append hmore

/-! ### Claiming -/

/-- Whether a poll of a shard hands out an item: it is the head of the queue that has waited
    longest. -/
structure Claims (s : Store) (now : Instant) (shard : Shard) (lane : Lane) (row : Row)
    (item : WorkItem) : Prop where
  here : s.lane? shard = some lane
  first : lane.poll.candidate? now = some row
  head : lane.poll.item? row.head = some item

theorem Claims.isCandidate {shard : Shard} {row : Row} {item : WorkItem}
    (h : s.Claims now shard lane row item) (hs : s.Sound) :
    lane.poll.IsCandidate now row item :=
  (hs.lane h.here).poll.isCandidate h.first h.head

theorem Claims.next {shard : Shard} {row : Row} {item : WorkItem}
    (h : s.Claims now shard lane row item) :
    s.next now shard =
      (.ok (some (item.attempted now)), s.setLane (lane.poll.lease now row item)) := by
  unfold Store.next withLane
  rw [h.here]
  dsimp only
  rw [h.first]
  dsimp only
  rw [show (lane.poll.updateRow row.name fun r =>
    { r with lockedUntil := now + leaseDuration }).item? row.head =
      lane.poll.item? row.head from rfl, h.head]
  rfl

theorem next_of_nothing {shard : Shard} (hl : s.lane? shard = some lane)
    (hnothing : lane.poll.candidate? now = none) :
    s.next now shard = (.ok none, s.setLane lane.poll) := by
  unfold next withLane
  rw [hl]
  dsimp only
  rw [hnothing]

theorem next_of_atRest {shard : Shard} (hl : s.lane? shard = some lane) (h : lane.AtRest now) :
    (s.next now shard).1 = .ok none :=
  congrArg Prod.fst (next_of_nothing hl (h.poll.symm ▸ h.nothing))

/-- A poll hands out nothing or the head of the queue that has waited longest; that head is
    always found, whatever other lanes are like. -/
theorem next_cases_of_lane {sharding : Sharding} {bound : WorkItemId}
    (hlane : lane.Sound sharding bound) {shard : Shard} (hl : s.lane? shard = some lane)
    (now : Instant) :
    (lane.poll.candidate? now = none ∧ s.next now shard = (.ok none, s.setLane lane.poll)) ∨
    ∃ row item, s.Claims now shard lane row item ∧
      s.next now shard =
        (.ok (some (item.attempted now)), s.setLane (lane.poll.lease now row item)) := by
  cases hfirst : lane.poll.candidate? now with
  | none => exact Or.inl ⟨rfl, next_of_nothing hl hfirst⟩
  | some row =>
    have hsound : lane.poll.Sound sharding bound := hlane.poll
    obtain ⟨item, hi, hid, -, -⟩ := hsound.head row (Lane.mem_of_candidate? hfirst).1
    have hfound : lane.poll.item? row.head = some item := hid ▸ hsound.item?_of_mem hi
    have hclaims : s.Claims now shard lane row item := ⟨hl, hfirst, hfound⟩
    exact Or.inr ⟨row, item, hclaims, hclaims.next⟩

theorem next_cases (hs : s.Sound) {shard : Shard} (hl : s.lane? shard = some lane) (now : Instant) :
    (lane.poll.candidate? now = none ∧ s.next now shard = (.ok none, s.setLane lane.poll)) ∨
    ∃ row item, s.Claims now shard lane row item ∧
      s.next now shard =
        (.ok (some (item.attempted now)), s.setLane (lane.poll.lease now row item)) :=
  next_cases_of_lane (hs.lane hl) hl now

/-- What is handed out is the head of the queue that has waited longest. -/
theorem next_eq_some (hs : s.Sound) {shard : Shard} {item : WorkItem}
    (h : (s.next now shard).1 = .ok (some item)) :
    ∃ lane row head, s.lane? shard = some lane ∧ lane.poll.Sound s.sharding s.nextId ∧
      lane.poll.IsCandidate now row head ∧ item = head.attempted now ∧
      (s.next now shard).2 = s.setLane (lane.poll.lease now row head) := by
  cases hl : s.lane? shard with
  | none =>
    unfold next withLane at h
    rw [hl] at h
    cases h
  | some lane =>
    have hpoll : lane.poll.Sound s.sharding s.nextId := (hs.lane hl).poll
    rcases next_cases hs hl now with ⟨-, hrun⟩ | ⟨row, head, hclaims, hrun⟩
    · rw [hrun] at h
      cases h
    · rw [hrun] at h
      refine ⟨lane, row, head, rfl, hpoll, hclaims.isCandidate hs, ?_, by rw [hrun]⟩
      exact (Option.some.inj (Except.ok.inj h)).symm

/-- A queue of which an item is handed out has a row that may be claimed, once its shard is polled. -/
theorem claimable_of_next (hs : s.Sound) {shard : Shard} {item : WorkItem}
    (h : (s.next now shard).1 = .ok (some item)) :
    ∃ lane row, s.lane? item.shard = some lane ∧ lane.poll.row? item.queueName = some row ∧
      lane.poll.Claimable now row := by
  obtain ⟨lane, row, head, hl, hpoll, hhead, rfl, -⟩ := next_eq_some hs h
  have hshard : head.shard = shard := by
    rw [hhead.shard, Lane.shard_poll, (mem_of_lane? hl).2]
  have hrow : lane.poll.row? head.queueName = some row := by
    rw [hhead.name]
    exact hpoll.row?_of_mem hhead.mem
  exact ⟨lane, row, hshard ▸ hl, hrow, hhead.claimable⟩

theorem poll_idles {shard : Shard} (hl : s.lane? shard = some lane) (now : Instant) :
    Idles now s (s.setLane lane.poll) :=
  .single (Move.setLane (mem_of_lane? hl).1 .poll) trivial

/-- Handing out an item is a poll and a claim. -/
theorem Claims.idles {shard : Shard} {row : Row} {item : WorkItem}
    (h : s.Claims now shard lane row item) :
    Idles now s (s.setLane (lane.poll.lease now row item)) := by
  obtain ⟨hmem, -⟩ := mem_of_lane? h.here
  refine (poll_idles h.here now).trans ?_
  have hshard : lane.poll.shard = (lane.poll.lease now row item).shard := rfl
  rw [← setLane_setLane s hshard]
  have hclaim : Move now (s.setLane lane.poll) (.claimed (item.attempted now)) _ :=
    Move.setLane (mem_setLane hmem (Lane.shard_poll lane)) (.claim h.first h.head)
  exact .single hclaim trivial

theorem next_idles (hs : s.Sound) (now : Instant) (shard : Shard) :
    Idles now s (s.next now shard).2 := by
  cases hl : s.lane? shard with
  | none =>
    unfold next withLane
    rw [hl]
    exact .refl s
  | some lane =>
    rcases next_cases hs hl now with ⟨-, hrun⟩ | ⟨row, item, hclaims, hrun⟩
    · rw [hrun]
      exact poll_idles hl now
    · rw [hrun]
      exact hclaims.idles

/-! ### Operators -/

/-- A queue that is reserved has a row afterwards, and at most got a placeholder for it. -/
theorem withReserved_idles {α : Type} {queue : QueueRef} {f : Store → Lane → Row → Answer Store α}
    (h : ∀ s lane row, lane ∈ s.lanes → lane.shard = queue.shard →
      lane.row? queue.name = some row → Idles now s (f s lane row).2) :
    Idles now s (s.withReserved now queue f).2 := by
  refine withLane_idles ?_
  intro lane hl
  obtain ⟨hmem, hshard⟩ := mem_of_lane? hl
  cases hrow : lane.row? queue.name with
  | some row => exact h s lane row hmem hshard hrow
  | none =>
    have hqueue : (⟨queue.name, lane.shard⟩ : QueueRef) = queue := by rw [hshard]
    have hstep : Move now s (.reserved s.nextId ⟨queue.name, lane.shard⟩) _ :=
      Move.lane hmem (.reserve hrow)
    rw [hqueue, replace_nil] at hstep
    refine Idles.trans (.single hstep trivial) (h _ _ _ ?_ hshard ?_)
    · exact mem_setLane (s := { s with nextId := s.nextId + 1 }) hmem rfl
    · rw [Lane.row?_addRow]
      show (lane.row? queue.name).or _ = _
      rw [hrow]
      exact if_pos rfl

/-- A change to the row of a queue that gives up no lease. -/
theorem updateRow_idles {queue : QueueRef} {c : RowChange} (mem : lane ∈ s.lanes)
    (hshard : lane.shard = queue.shard)
    (fits : ∀ row, lane.row? queue.name = some row → c.Fits row)
    (hidle : (Event.changed queue c).Idle) :
    Idles now s (s.setLane (lane.updateRow queue.name (c.apply now))) := by
  have hmove : Move now s (.changed ⟨queue.name, lane.shard⟩ c) _ := Move.updateRow mem fits
  rw [hshard] at hmove
  exact .single hmove hidle

theorem pause_idles (now : Instant) (queue : QueueRef) (s : Store) :
    Idles now s (s.pause now queue).2 := by
  refine withReserved_idles ?_
  intro s lane row hmem hshard _
  exact updateRow_idles (c := .pause) hmem hshard (fun _ _ => trivial) trivial

theorem lock_idles (now : Instant) (queue : QueueRef) (lockId : String) (s : Store) :
    Idles now s (s.lock now queue lockId).2 := by
  refine withReserved_idles ?_
  intro s lane row hmem hshard hrow
  cases hlock : row.lock with
  | some held => exact .refl s
  | none =>
    refine updateRow_idles (c := .putLock lockId) hmem hshard ?_ trivial
    intro other hother
    rw [hrow, Option.some.injEq] at hother
    exact Or.inl (hother ▸ hlock)

theorem resume_idles (now : Instant) (queue : QueueRef) (s : Store) :
    Idles now s (s.resume queue).2 := by
  refine withLane_idles ?_
  intro lane hl
  obtain ⟨hmem, hshard⟩ := mem_of_lane? hl
  exact updateRow_idles (c := .resume) hmem hshard (fun _ _ => trivial) trivial

/-- Unlocking a queue takes the lock off its row, or takes it back from the head of the queue before
    the head puts it on. -/
theorem unlock_cases (hs : s.Sound) (now : Instant) (queue : QueueRef) (lockId : String) :
    Idles now s (s.unlock queue lockId).2 ∨
    ∃ item, item.queueRef = queue ∧ item.lockWhenComplete = some lockId ∧
      Move now s (.released item) (s.unlock queue lockId).2 := by
  unfold unlock withLane
  cases hl : s.lane? queue.shard with
  | none => exact Or.inl (.refl s)
  | some lane =>
    obtain ⟨hmem, hshard⟩ := mem_of_lane? hl
    dsimp only
    cases hrow : lane.row? queue.name with
    | none => exact Or.inl (.refl s)
    | some row =>
      dsimp only
      split
      · rename_i hheld
        refine Or.inl (updateRow_idles (c := .dropLock lockId) hmem hshard ?_ trivial)
        intro other hother
        rw [hrow, Option.some.injEq] at hother
        exact hother ▸ hheld
      · cases hhead : lane.item? row.head with
        | none => exact Or.inl (.refl s)
        | some item =>
          dsimp only
          split
          · rename_i hdeferred
            obtain ⟨hr, hname⟩ := Lane.mem_of_row? hrow
            obtain ⟨hi, hid⟩ := Lane.mem_of_item? hhead
            have hlane := hs.lane hl
            obtain ⟨head, hh, hheadId, hheadName, -⟩ := hlane.head row hr
            have hsame : item = head := hlane.item_eq hi hh (hid.trans hheadId.symm)
            have hqueue : item.queueRef = queue := by
              unfold WorkItem.queueRef
              rw [hlane.here item hi, hshard, hsame, hheadName, hname]
            have hrow' : lane.row? row.name = some row := hlane.row?_of_mem hr
            exact Or.inr ⟨item, hqueue, hdeferred, Move.setLane hmem (.release hrow' hhead hdeferred)⟩
          · exact Or.inl (.refl s)

/-- A purge of a shard of the deployment is one move. -/
theorem purge_cases (now : Instant) (shard : Shard) (s : Store) :
    (s.purge now shard).2 = s ∨ Move now s (.purged shard) (s.purge now shard).2 := by
  unfold purge withLane
  cases hl : s.lane? shard with
  | none => exact Or.inl rfl
  | some lane =>
    obtain ⟨hmem, rfl⟩ := mem_of_lane? hl
    exact Or.inr (Move.setLane hmem .purge)

end Store

end Courier
