/-
  Courier/Proofs/Supervisor/Drain.lean
  ====================================
  **Draining a service.**

  A drain executes the consumers one after the other, each until it answers that no
  more work is likely, in rounds, until a round settles nothing.  Its loops have a
  budget.  If whatever an execution settles uses up a rank that the budget exceeds,
  the budget plays no part, and a drain is a run of executions that ends with one of
  each consumer, none of which settles anything (`Supervisor.Settles.drain`).

  Over the in-process store the rank is the number of unspent items, so a drain
  always answers.  What it may leave claimable is on the shard of a consumer whose
  last execution delayed an item, and only there
  (`Supervisor.drain_leaves_only_delayed`): the answer of that execution is the same
  as if nothing could be claimed.
-/
import Courier.Proofs.Consumer.Execution
import Courier.Proofs.Store.Trace
import Courier.Supervisor

namespace Courier

open Courier.Time

/-! ### Runs -/

/-- One execution of the consumer of a number, between two states of a service. -/
structure Turn (σ : Type) where
  number : Nat
  before : Supervisor σ
  /-- What the execution answered. -/
  more : Bool
  after : Supervisor σ

namespace Turn

variable {σ : Type}

/-- How many of the turns answered that more work is likely. -/
def settled (turns : List (Turn σ)) : Nat := turns.countP (·.more)

theorem settled_append (turns later : List (Turn σ)) :
    settled (turns ++ later) = settled turns + settled later := List.countP_append

theorem settled_singleton (turn : Turn σ) : settled [turn] = turn.more.toNat := by
  unfold settled
  rw [List.countP_singleton]
  cases turn.more <;> rfl

/-- Whether an item was claimed in a turn, for a shard. -/
def Claims (turn : Turn Store) (shard : Shard) (item : WorkItem) : Prop :=
  (turn.before.store.next turn.before.clock.storeNow shard).1 = .ok (some item)

/-- Whether an item was requested in a turn and the response delays it. -/
def Delays (turn : Turn Store) (item : WorkItem) : Prop :=
  turn.before.settings.dispatcher.Delays turn.before.depot item

end Turn

namespace Supervisor

section Budget

variable {σ : Type} [Backend σ] {s s' : Supervisor σ} {turns later : List (Turn σ)}

/-- Executions of consumers one after the other. -/
inductive Runs : Supervisor σ → List (Turn σ) → Supervisor σ → Prop where
  | nil (s : Supervisor σ) : Runs s [] s
  | cons {s s' s'' : Supervisor σ} {i : Nat} {more : Bool} {turns : List (Turn σ)}
      (known : i < s.fleet.world.consumers.length) (turn : s.executeConsumer i = (.ok more, s'))
      (rest : Runs s' turns s'') :
      Runs s (⟨i, s, more, s'⟩ :: turns) s''

theorem Runs.append {s'' : Supervisor σ} (h : Runs s turns s') (h' : Runs s' later s'') :
    Runs s (turns ++ later) s'' := by
  induction h with
  | nil s => exact h'
  | cons known turn _ ih => exact .cons known turn (ih h')

theorem Runs.split (h : Runs s (turns ++ later) s') :
    ∃ mid, Runs s turns mid ∧ Runs mid later s' := by
  induction turns generalizing s with
  | nil => exact ⟨s, .nil s, h⟩
  | cons turn rest ih =>
    cases h with
    | cons known run hrest =>
      obtain ⟨mid, hfirst, hlater⟩ := ih hrest
      exact ⟨mid, .cons known run hfirst, hlater⟩

/-- Whether under an invariant each of `n` consumers always answers, and answers that more work is
    likely only if a rank went down. -/
structure Settles (n : Nat) (inv : Supervisor σ → Prop) (rank : Supervisor σ → Nat) : Prop where
  staff : ∀ s, inv s → s.fleet.world.consumers.length = n
  turn : ∀ s i, inv s → i < n → ∃ more s', s.executeConsumer i = (.ok more, s') ∧ inv s' ∧
    rank s' + more.toNat ≤ rank s

variable {n : Nat} {inv : Supervisor σ → Prop} {rank : Supervisor σ → Nat}

/-- A run that keeps an invariant and uses up a rank by what it settles. -/
structure Pays (inv : Supervisor σ → Prop) (rank : Supervisor σ → Nat) (s : Supervisor σ)
    (turns : List (Turn σ)) (s' : Supervisor σ) : Prop where
  runs : Runs s turns s'
  kept : inv s'
  paid : rank s' + Turn.settled turns ≤ rank s

theorem Pays.append {s'' : Supervisor σ} (h : Pays inv rank s turns s')
    (h' : Pays inv rank s' later s'') : Pays inv rank s (turns ++ later) s'' where
  runs := h.runs.append h'.runs
  kept := h'.kept
  paid := by
    have hfirst := h.paid
    have hrest := h'.paid
    rw [Turn.settled_append]
    omega

theorem Settles.pays (h : Settles n inv rank) (hs : inv s) {i : Nat} (hi : i < n) :
    ∃ more s', s.executeConsumer i = (.ok more, s') ∧ Pays inv rank s [⟨i, s, more, s'⟩] s' := by
  obtain ⟨more, s', hrun, hkept, hrank⟩ := h.turn s i hs hi
  refine ⟨more, s', hrun, .cons (h.staff s hs ▸ hi) hrun (.nil s'), hkept, ?_⟩
  rw [Turn.settled_singleton]
  exact hrank

/-- A consumer with a budget above the rank is executed until it answers that no more work is
    likely. -/
theorem Settles.drainConsumer (h : Settles n inv rank) (hs : inv s) {i : Nat} (hi : i < n)
    {budget : Nat} (hbudget : rank s < budget) :
    ∃ turns s', s.drainConsumer i budget = (.ok (Turn.settled turns), s') ∧
      Pays inv rank s turns s' ∧ (Turn.settled turns = 0 → turns.map (·.number) = [i]) := by
  induction budget generalizing s with
  | zero => exact absurd hbudget (Nat.not_lt_zero _)
  | succ budget ih =>
    obtain ⟨more, s₁, hrun, hpays⟩ := h.pays hs hi
    unfold Supervisor.drainConsumer
    rw [hrun]
    cases more with
    | false => exact ⟨[⟨i, s, false, s₁⟩], s₁, rfl, hpays, fun _ => rfl⟩
    | true =>
      -- what was settled lowers the rank, so what is left of the budget exceeds it still
      have hpaid : rank s₁ + 1 ≤ rank s := hpays.paid
      obtain ⟨turns, s', hrest, hpays', -⟩ := ih hpays.kept (by omega)
      have hcount : Turn.settled (⟨i, s, true, s₁⟩ :: turns) = Turn.settled turns + 1 :=
        List.countP_cons_of_pos rfl
      refine ⟨⟨i, s, true, s₁⟩ :: turns, s', ?_, hpays.append hpays', ?_⟩
      · dsimp only
        rw [hrest, hcount]
        rfl
      · intro hnone
        rw [hcount] at hnone
        cases hnone

/-- A round in which nothing is settled executes each consumer once. -/
theorem Settles.drainEach (h : Settles n inv rank) {numbers : List Nat}
    (hnumbers : ∀ i ∈ numbers, i < n) (hs : inv s) {budget : Nat} (hbudget : rank s < budget) :
    ∃ turns s', s.drainEach budget numbers = (.ok (Turn.settled turns), s') ∧
      Pays inv rank s turns s' ∧ (Turn.settled turns = 0 → turns.map (·.number) = numbers) := by
  induction numbers generalizing s with
  | nil => exact ⟨[], s, rfl, ⟨.nil s, hs, Nat.le_refl _⟩, fun _ => rfl⟩
  | cons i rest ih =>
    obtain ⟨turns, s₁, hrun, hpays, hnone⟩ :=
      h.drainConsumer hs (hnumbers i List.mem_cons_self) hbudget
    have hpaid := hpays.paid
    obtain ⟨later, s', hrest, hpays', hnone'⟩ :=
      ih (fun j hj => hnumbers j (List.mem_cons_of_mem _ hj)) hpays.kept (by omega)
    refine ⟨turns ++ later, s', ?_, hpays.append hpays', fun hzero => ?_⟩
    · unfold Supervisor.drainEach
      rw [hrun]
      dsimp only
      rw [hrest, Turn.settled_append]
      rfl
    · rw [Turn.settled_append, Nat.add_eq_zero_iff] at hzero
      rw [List.map_append, hnone hzero.1, hnone' hzero.2]
      rfl

theorem Settles.drainRounds (h : Settles n inv rank) (hs : inv s) {budget rounds : Nat}
    (hbudget : rank s < budget) (hrounds : rank s < rounds) :
    ∃ turns last s', s.drainRounds budget rounds = (.ok (Turn.settled (turns ++ last)), s') ∧
      Pays inv rank s (turns ++ last) s' ∧ Turn.settled last = 0 ∧
      last.map (·.number) = List.range n := by
  induction rounds generalizing s with
  | zero => exact absurd hrounds (Nat.not_lt_zero _)
  | succ rounds ih =>
    obtain ⟨turns, s₁, hrun, hpays, hnone⟩ :=
      h.drainEach (fun i hi => List.mem_range.1 hi) hs hbudget
    rw [← h.staff s hs] at hrun
    unfold Supervisor.drainRounds
    rw [hrun]
    cases hcount : Turn.settled turns with
    | zero =>
      -- the last round: nothing was settled, so each consumer was executed just once
      refine ⟨[], turns, s₁, ?_, hpays, hcount, hnone hcount⟩
      rw [List.nil_append, hcount]
    | succ count =>
      have hpaid := hpays.paid
      obtain ⟨later, last, s', hrest, hpays', hlast⟩ := ih hpays.kept (by omega) (by omega)
      refine ⟨turns ++ later, last, s', ?_, ?_, hlast⟩
      · dsimp only
        rw [hrest, List.append_assoc, Turn.settled_append turns, hcount]
        rfl
      · rw [List.append_assoc]
        exact hpays.append hpays'

/-- A drain whose budget exceeds the rank is a run that ends with one execution of each consumer,
    none of which settles anything. -/
theorem Settles.drain (h : Settles n inv rank) (hs : inv s)
    (hbudget : rank s ≤ Backend.pendingCount s.store) :
    ∃ turns last s', s.drain = (.ok (Turn.settled (turns ++ last)), s') ∧
      Runs s (turns ++ last) s' ∧ inv s' ∧ (∀ turn ∈ last, turn.more = false) ∧
      last.map (·.number) = List.range n := by
  have hlt : rank s < Backend.pendingCount s.store + 1 := Nat.lt_succ_of_le hbudget
  obtain ⟨turns, last, s', hrun, hpays, hnone, hlast⟩ := h.drainRounds hs hlt hlt
  refine ⟨turns, last, s', hrun, hpays.runs, hpays.kept, fun turn ht => ?_, hlast⟩
  have hmore := List.countP_eq_zero.1 hnone turn ht
  exact Bool.not_eq_true _ ▸ hmore

end Budget

variable {s s' : Supervisor Store} {i : Nat} {shard : Shard} {more : Bool}
variable {turns : List (Turn Store)}

/-! ### Turns over the in-process store -/

/-- Whether the store of a service is sound and each of its shards has its consumer. -/
structure Serves (s : Supervisor Store) : Prop where
  sound : s.store.Sound
  staff : s.fleet.world.consumers.map (·.shard) = s.store.sharding.shards

/-- What an execution of the consumer of a number does to a service. -/
structure Works (s : Supervisor Store) (i : Nat) (shard : Shard) (more : Bool)
    (s' : Supervisor Store) : Prop where
  here : s.store.sharding.shards[i]? = some shard
  settings : s'.settings = s.settings
  clock : s'.clock = s.clock
  staff : s'.fleet.world.consumers.map (·.shard) = s.fleet.world.consumers.map (·.shard)
  work : Consumer.Work s.settings.dispatcher s.clock.storeNow shard s.depot more s'.depot

theorem Works.sharding (h : s.Works i shard more s') (hs : s.Serves) :
    s'.store.sharding = s.store.sharding := (h.work.sound hs.sound).2

theorem Works.serves (h : s.Works i shard more s') (hs : s.Serves) : s'.Serves where
  sound := (h.work.sound hs.sound).1
  staff := by rw [h.staff, h.sharding hs, hs.staff]

/-- A direct execution of a consumer is an execution at the time of the service. -/
theorem executeConsumer_eq {c c' : Consumer} {d' : Depot Store} {result : Except Error Bool}
    (hc : s.fleet.world.consumers[i]? = some c)
    (hrun : c.execute s.settings.dispatcher s.clock s.depot = (result, c', d')) :
    ∃ s', s.executeConsumer i = (result, s') ∧ s'.settings = s.settings ∧ s'.clock = s.clock ∧
      s'.fleet.world = ⟨d', s.fleet.world.consumers.set i c'⟩ := by
  have hworker : workers s.settings i s.fleet.clock s.fleet.world =
      ({ result }, ⟨d', s.fleet.world.consumers.set i c'⟩) := by
    unfold workers
    rw [hc]
    dsimp only
    rw [show c.execute s.settings.dispatcher s.fleet.clock s.fleet.world.depot = _ from hrun]
  unfold executeConsumer Poll.Fleet.execute
  dsimp only [Poll.Fleet.updateLoop]
  rw [hworker]
  exact ⟨_, rfl, rfl, rfl, rfl⟩

/-- The consumer of a shard of a service always answers. -/
theorem Serves.works (h : s.Serves) (hi : i < s.fleet.world.consumers.length) :
    ∃ shard more s', s.executeConsumer i = (.ok more, s') ∧ s.Works i shard more s' := by
  have hc : s.fleet.world.consumers[i]? = some s.fleet.world.consumers[i] :=
    List.getElem?_eq_getElem hi
  let c : Consumer := s.fleet.world.consumers[i]
  have hshard : s.store.sharding.shards[i]? = some c.shard := by
    rw [← h.staff, List.getElem?_map, hc]
    rfl
  obtain ⟨more, c', d', hrun, hsame, hwork⟩ :=
    c.execute_works s.settings.dispatcher s.clock h.sound (List.mem_of_getElem? hshard)
  obtain ⟨s', hexecute, hsettings, hclock, hworld⟩ := executeConsumer_eq hc hrun
  refine ⟨c.shard, more, s', hexecute, hshard, hsettings, hclock, ?_, ?_⟩
  · rw [hworld, List.map_set, hsame]
    have hlength : i < (s.fleet.world.consumers.map (·.shard)).length := by
      rwa [List.length_map]
    have hsame : c.shard = (s.fleet.world.consumers.map (·.shard))[i] := (List.getElem_map _).symm
    rw [hsame]
    exact List.set_getElem_self hlength
  · rw [show s'.depot = d' from congrArg Floor.depot hworld]
    exact hwork

theorem Serves.works_of_execute (h : s.Serves) (hi : i < s.fleet.world.consumers.length)
    (hrun : s.executeConsumer i = (.ok more, s')) : ∃ shard, s.Works i shard more s' := by
  obtain ⟨shard, more', s₁, hrun', hworks⟩ := h.works hi
  rw [hrun] at hrun'
  obtain ⟨hmore, hs⟩ := Prod.mk.inj hrun'
  rw [Except.ok.inj hmore, hs]
  exact ⟨shard, hworks⟩

/-- What every execution keeps, a run keeps, and each of its turns is such an execution. -/
theorem Runs.keeps {P : Supervisor Store → Prop} (h : Runs s turns s') (hs : s.Serves)
    (hstep : ∀ {s s' : Supervisor Store} {i : Nat} {shard : Shard} {more : Bool}, s.Serves →
      s.Works i shard more s' → P s → P s') (hp : P s) :
    s'.Serves ∧ P s' ∧ ∀ turn ∈ turns, turn.before.Serves ∧ P turn.before ∧
      ∃ shard, turn.before.Works turn.number shard turn.more turn.after := by
  induction h with
  | nil s => exact ⟨hs, hp, fun turn ht => absurd ht List.not_mem_nil⟩
  | cons known turn rest ih =>
    obtain ⟨shard, hworks⟩ := hs.works_of_execute known turn
    obtain ⟨hs', hp', hturns⟩ := ih (hworks.serves hs) (hstep hs hworks hp)
    refine ⟨hs', hp', fun turn ht => ?_⟩
    rcases List.mem_cons.1 ht with rfl | ht
    · exact ⟨hs, hp, shard, hworks⟩
    · exact hturns turn ht

theorem Runs.serves (h : Runs s turns s') (hs : s.Serves) :
    (s'.Serves ∧ s'.clock = s.clock ∧ s'.store.sharding = s.store.sharding) ∧
      ∀ turn ∈ turns, turn.before.store.sharding = s.store.sharding ∧
        ∃ shard, turn.before.Works turn.number shard turn.more turn.after := by
  obtain ⟨hs', hsame, hturns⟩ := h.keeps (P := fun t => t.clock = s.clock ∧
    t.store.sharding = s.store.sharding) hs
    (fun ht hworks hp => ⟨hworks.clock.trans hp.1, (hworks.sharding ht).trans hp.2⟩) ⟨rfl, rfl⟩
  refine ⟨⟨hs', hsame⟩, fun turn ht => ?_⟩
  obtain ⟨-, hbefore, hworks⟩ := hturns turn ht
  exact ⟨hbefore.2, hworks⟩

theorem length_shards (sharding : Sharding) : sharding.shards.length = sharding.count := by
  unfold Sharding.shards
  rw [List.length_map, List.length_range]

theorem Serves.length (h : s.Serves) :
    s.fleet.world.consumers.length = s.store.sharding.count := by
  rw [← length_shards, ← h.staff, List.length_map]

theorem settles (now : Instant) (sharding : Sharding) :
    Settles sharding.count
      (fun s : Supervisor Store =>
        s.Serves ∧ s.clock.storeNow = now ∧ s.store.sharding = sharding)
      fun s => (s.store.unspent now).length where
  staff := by
    rintro s ⟨hs, -, rfl⟩
    exact hs.length
  turn := by
    rintro s i ⟨hs, rfl, rfl⟩ hi
    obtain ⟨shard, more, s', hrun, hworks⟩ := hs.works (hs.length ▸ hi)
    refine ⟨more, s', hrun, ⟨hworks.serves hs, ?_, hworks.sharding hs⟩, ?_⟩
    · rw [hworks.clock]
    · exact hworks.work.unspent hs.sound

/-- A drain always answers: it is a run that ends with one execution of each consumer, none of
    which settles anything. -/
theorem Serves.drain (h : s.Serves) :
    ∃ turns last s', s.drain = (.ok (Turn.settled (turns ++ last)), s') ∧
      Runs s (turns ++ last) s' ∧ (∀ turn ∈ last, turn.more = false) ∧
      last.map (·.number) = List.range s.store.sharding.count := by
  obtain ⟨turns, last, s', hrun, hruns, -, hlast⟩ :=
    (settles s.clock.storeNow s.store.sharding).drain ⟨h, rfl, rfl⟩
      (s.store.length_unspent_le s.clock.storeNow)
  exact ⟨turns, last, s', hrun, hruns, hlast⟩

/-! ### The last round -/

/-- An execution that settles nothing leaves its shard at rest, unless it delayed an item. -/
theorem Works.rests (h : s.Works i shard false s') :
    (∃ lane, s'.store.lane? shard = some lane ∧ lane.AtRest s.clock.storeNow) ∨
      ∃ item, Turn.Claims ⟨i, s, false, s'⟩ shard item ∧ Turn.Delays ⟨i, s, false, s'⟩ item := by
  obtain ⟨lane, lane', hl, hshard, hstore, hrest⟩ := h.work.quiet
  refine hrest.imp_left fun hrest => ⟨lane', ?_, hrest⟩
  rw [show s'.store = s.store.setLane lane' from hstore, Store.lane?_setLane,
    if_pos hshard.symm, show s.store.lane? shard = some lane from hl]
  rfl

/-- An execution that settles nothing leaves every other shard as it was. -/
theorem Works.elsewhere (h : s.Works i shard false s') {j : Nat} {other : Shard}
    (hother : s.store.sharding.shards[j]? = some other) (hne : i ≠ j) :
    s'.store.lane? other = s.store.lane? other := by
  obtain ⟨lane, lane', hl, hshard, hstore, -⟩ := h.work.quiet
  rw [show s'.store = s.store.setLane lane' from hstore, Store.lane?_setLane, if_neg]
  intro hsame
  obtain ⟨hi, -⟩ := List.getElem?_eq_some_iff.1 h.here
  refine hne ((List.getElem?_inj hi s.store.sharding.nodup_shards).1 ?_)
  rw [h.here, hother, hsame, hshard]

/-- After a round that settles nothing a shard is at rest, unless an item of it was delayed. -/
theorem Runs.rests (h : Runs s turns s') (hs : s.Serves)
    (hquiet : ∀ turn ∈ turns, turn.more = false) (honce : (turns.map (·.number)).Nodup)
    (hshard : s.store.sharding.shards[i]? = some shard) :
    (i ∉ turns.map (·.number) → s'.store.lane? shard = s.store.lane? shard) ∧
      ∀ turn ∈ turns, turn.number = i →
        (∃ lane, s'.store.lane? shard = some lane ∧ lane.AtRest s.clock.storeNow) ∨
          ∃ item, turn.Claims shard item ∧ turn.Delays item := by
  induction h with
  | nil s => exact ⟨fun _ => rfl, fun turn ht => absurd ht List.not_mem_nil⟩
  | @cons s s₁ s' j more rest known run _ ih =>
    obtain rfl : more = false := hquiet _ List.mem_cons_self
    obtain ⟨hfresh, honce⟩ := List.nodup_cons.1 honce
    obtain ⟨other, hworks⟩ := hs.works_of_execute known run
    obtain ⟨hkept, hrests⟩ := ih (hworks.serves hs)
      (fun turn ht => hquiet turn (List.mem_cons_of_mem _ ht)) honce
      (by rw [hworks.sharding hs]; exact hshard)
    rw [hworks.clock] at hrests
    -- each consumer has one turn, and the turns of the others leave its shard alone
    constructor
    · intro hnot
      have hne : j ≠ i := fun hsame => hnot (hsame ▸ List.mem_cons_self)
      have hlater : i ∉ rest.map (·.number) := fun hi => hnot (List.mem_cons_of_mem _ hi)
      exact (hkept hlater).trans (hworks.elsewhere hshard hne)
    · intro turn ht hnumber
      rcases List.mem_cons.1 ht with rfl | ht
      · obtain rfl : j = i := hnumber
        obtain rfl : other = shard := Option.some.inj (hworks.here.symm.trans hshard)
        refine hworks.rests.imp_left ?_
        rintro ⟨lane, hl, hrest⟩
        exact ⟨lane, (hkept hfresh).trans hl, hrest⟩
      · exact hrests turn ht hnumber

/-- After a drain each shard is at rest, unless the last execution for it delayed an item. -/
theorem Serves.drain_rests (h : s.Serves) :
    ∃ turns last s', s.drain = (.ok (Turn.settled (turns ++ last)), s') ∧
      Runs s (turns ++ last) s' ∧ (∀ turn ∈ last, turn.more = false) ∧
      last.map (·.number) = List.range s.store.sharding.count ∧
      ∀ i shard, s.store.sharding.shards[i]? = some shard → ∃ turn ∈ last, turn.number = i ∧
        ((∃ lane, s'.store.lane? shard = some lane ∧ lane.AtRest s.clock.storeNow) ∨
          ∃ item, turn.Claims shard item ∧ turn.Delays item) := by
  obtain ⟨turns, last, s', hrun, hruns, hquiet, hlast⟩ := h.drain
  refine ⟨turns, last, s', hrun, hruns, hquiet, hlast, fun i shard hshard => ?_⟩
  obtain ⟨mid, hfirst, hround⟩ := hruns.split
  obtain ⟨⟨hmid, hclock, hsame⟩, -⟩ := hfirst.serves h
  have honce : (last.map (·.number)).Nodup := hlast ▸ List.nodup_range
  have hi : i ∈ last.map (·.number) := by
    obtain ⟨hi, -⟩ := List.getElem?_eq_some_iff.1 hshard
    rw [hlast, List.mem_range, ← length_shards]
    exact hi
  obtain ⟨turn, ht, hnumber⟩ := List.mem_map.1 hi
  rw [← hsame] at hshard
  have hrests := (hround.rests hmid hquiet honce hshard).2 turn ht hnumber
  rw [hclock] at hrests
  exact ⟨turn, ht, hnumber, hrests⟩

/-- A drain of a service over a reachable store always answers, with the number of executions that
    claimed an item and did not delay it.  It ends with a round of executions of which none does,
    and nothing of a shard can be claimed then unless the last execution for it delayed an item. -/
theorem drain_leaves_only_delayed {sharding : Sharding} (calls : List (Store.Call sharding))
    (s : Supervisor Store) (hstore : s.store = Store.reached calls)
    (hstaff : s.fleet.world.consumers.map (·.shard) = sharding.shards) :
    ∃ turns last s', s.drain = (.ok (Turn.settled (turns ++ last)), s') ∧
      Runs s (turns ++ last) s' ∧ (∀ turn ∈ last, turn.more = false) ∧
      last.map (·.number) = List.range sharding.count ∧
      (∀ turn ∈ turns ++ last, ∃ shard, sharding.shards[turn.number]? = some shard ∧
        (turn.more = true ↔ ∃ item, turn.Claims shard item ∧ ¬ turn.Delays item)) ∧
      ∀ i shard, sharding.shards[i]? = some shard →
        (s'.store.next s.clock.storeNow shard).1 = .ok none ∨
          ∃ turn ∈ last, turn.number = i ∧
            ∃ item, turn.Claims shard item ∧ turn.Delays item := by
  obtain ⟨hsound, hsharding⟩ := Store.reached_sound calls
  rw [← hstore] at hsound hsharding
  have hs : s.Serves := ⟨hsound, by rw [hsharding, hstaff]⟩
  obtain ⟨turns, last, s', hrun, hruns, hquiet, hlast, hrests⟩ := hs.drain_rests
  rw [hsharding] at hlast hrests
  refine ⟨turns, last, s', hrun, hruns, hquiet, hlast, fun turn ht => ?_, fun i shard hshard => ?_⟩
  · obtain ⟨hbefore, shard, hworks⟩ := (hruns.serves hs).2 turn ht
    exact ⟨shard, hsharding ▸ hbefore ▸ hworks.here, hworks.work.more_iff⟩
  · obtain ⟨turn, ht, hnumber, ⟨lane, hl, hrest⟩ | hdelays⟩ := hrests i shard hshard
    · exact Or.inl (Store.next_of_atRest hl hrest)
    · exact Or.inr ⟨turn, ht, hnumber, hdelays⟩

/-- An item is filed in each of two queues of one shard. -/
def twoQueuesFiled : List (Store.Call .single) :=
  [⟨{ origin := ⟨10⟩ }, .operate (.enqueue "" { url := "http://h/busy", queue := some "a" })⟩,
   ⟨{ origin := ⟨11⟩ }, .operate (.enqueue "" { url := "http://h/ok", queue := some "b" })⟩]

/-- A service over them; the first of the items is told to come back later. -/
def toldToComeBack : Supervisor Store :=
  create
    { dispatcher :=
        { network := fun _ request => if request.itemId = 1 then .status 429 else .status 200 } }
    { origin := ⟨12⟩ } (Store.reached twoQueuesFiled)

/-- A drain that delays the first item never gets to the other queue. -/
theorem drain_stops_at_a_delay :
    (toldToComeBack.store = Store.reached twoQueuesFiled ∧
      toldToComeBack.fleet.world.consumers.map (·.shard) = Sharding.single.shards) ∧
    toldToComeBack.drain.1.toOption = some 0 ∧
    ((toldToComeBack.drain.2.store.next toldToComeBack.clock.storeNow ⟨0, 1⟩).1.toOption.map
      fun item => item.map (·.id)) = some (some 2) ∧
    ∃ turn : Turn Store, ∃ item, turn.Claims ⟨0, 1⟩ item ∧ turn.Delays item := by
  have hstaff : toldToComeBack.fleet.world.consumers.map (·.shard) = Sharding.single.shards := rfl
  have hnext : ((toldToComeBack.drain.2.store.next toldToComeBack.clock.storeNow
      ⟨0, 1⟩).1.toOption.map fun item => item.map (·.id)) = some (some 2) := by decide +kernel
  refine ⟨⟨rfl, hstaff⟩, by decide +kernel, hnext, ?_⟩
  obtain ⟨turns, last, after, hrun, -, -, -, -, hrests⟩ :=
    drain_leaves_only_delayed twoQueuesFiled toldToComeBack rfl hstaff
  rcases hrests 0 ⟨0, 1⟩ rfl with hnone | ⟨turn, -, -, item, hclaims, hdelays⟩
  · rw [hrun, hnone] at hnext
    cases hnext
  · exact ⟨turn, item, hclaims, hdelays⟩

end Supervisor

end Courier
