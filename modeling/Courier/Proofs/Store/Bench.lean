/-
  Courier/Proofs/Store/Bench.lean
  ===============================
  **A completion that is looked at while it is under way.**

  A completion keeps its own shard to itself until it is done, but not the mailboxes
  that it posts to: between any two of its effects another shard may be polled
  (`Bench.step`).  With no poll in between the effects are the completion
  (`Bench.effects_complete`).

  What the completion under way will come to (`Bench.outcome`) is a sound and balanced
  store at every moment (`Bench.steady_reached`): carrying out the next effect brings
  it no nearer and no farther, and a poll of another shard changes in it what it
  changes in the lane of that shard.
-/
import Courier.Proofs.Store.Effects

namespace Courier

open Courier.Time

/-! ### Benches -/

/-- A store on which a completion may be under way. -/
structure Bench where
  store : Store
  /-- The shard on which it is. -/
  shard : Shard := default
  /-- The effects that are left of it. -/
  left : List Effect := []

namespace Bench

/-- What happens next on a bench. -/
inductive Act (sharding : Sharding) where
  /-- Something is asked of the store, only not that an item be completed. -/
  | call (c : Store.Call sharding)
      (noneCompleted : ∀ id shard, c.request ≠ .operate (.complete id shard))
  | poll (clock : Clock) (shard : Shard)
  | begin_ (clock : Clock) (id : WorkItemId) (shard : Shard)
  /-- The next effect of a completion is carried out. -/
  | effect

variable {sharding : Sharding}

/-- Whether a shard can be polled: a completion keeps its shard to itself. -/
def IsFree (b : Bench) (shard : Shard) : Prop := b.left = [] ∨ shard ≠ b.shard

instance (b : Bench) (shard : Shard) : Decidable (b.IsFree shard) :=
  inferInstanceAs (Decidable (_ ∨ _))

/-- The effects of completing an item, if its completion can begin. -/
def plan? (b : Bench) (clock : Clock) (id : WorkItemId) (shard : Shard) : Option (List Effect) :=
  match b.left, b.store.lane? shard with
  | [], some lane => (b.store.completion clock.storeNow id lane).toOption
  | _, _ => none

theorem plan?_eq_some {b : Bench} {clock : Clock} {id : WorkItemId} {shard : Shard}
    {effects : List Effect} :
    b.plan? clock id shard = some effects ↔ b.left = [] ∧ ∃ lane,
      b.store.lane? shard = some lane ∧
        b.store.completion clock.storeNow id lane = .ok effects := by
  unfold plan?
  cases b.left with
  | cons effect left => simp
  | nil =>
    cases b.store.lane? shard with
    | none => simp
    | some lane =>
      cases hcompletion : b.store.completion clock.storeNow id lane <;>
        simp [hcompletion, Except.toOption]

/-- What an act makes of a bench.  What cannot be done at the moment is not done. -/
def step (b : Bench) : Act sharding → Bench
  | .call c _ => if b.left = [] then { b with store := (c.run b.store).2 } else b
  | .poll clock shard =>
    if b.IsFree shard then { b with store := (b.store.next clock.storeNow shard).2 } else b
  | .begin_ clock id shard =>
    match b.plan? clock id shard with
    | some effects => { b with shard, left := effects }
    | none => b
  | .effect =>
    match b.left with
    | [] => b
    | effect :: effects =>
      match effect.apply b.store with
      | (.ok (), store) => { b with store, left := effects }
      | (.error _, store) => { b with store, left := [] }

def after (b : Bench) (acts : List (Act sharding)) : Bench := acts.foldl step b

def reached (acts : List (Act sharding)) : Bench := after { store := .empty sharding } acts

/-- What the store comes to when the completion under way is carried out. -/
def outcome (b : Bench) : Store := (b.store.perform b.left).2

theorem outcome_of_rest {b : Bench} (h : b.left = []) : b.outcome = b.store := by
  unfold outcome
  rw [h]
  rfl

theorem step_begin {b : Bench} {clock : Clock} {id : WorkItemId} {shard : Shard}
    {effects : List Effect} (h : b.plan? clock id shard = some effects) :
    b.step (.begin_ clock id shard : Act sharding) = { b with shard, left := effects } := by
  dsimp only [step]
  rw [h]

theorem step_of_no_plan {b : Bench} {clock : Clock} {id : WorkItemId} {shard : Shard}
    (h : b.plan? clock id shard = none) :
    b.step (.begin_ clock id shard : Act sharding) = b := by
  dsimp only [step]
  rw [h]

theorem step_of_no_effect {b : Bench} (h : b.left = []) :
    b.step (.effect : Act sharding) = b := by
  dsimp only [step]
  rw [h]

theorem step_effect {b : Bench} {effect : Effect} {effects : List Effect} {store : Store}
    {result : Except Error Unit} (hleft : b.left = effect :: effects)
    (hrun : effect.apply b.store = (result, store)) :
    b.step (.effect : Act sharding) =
      { b with store, left := if result.toBool then effects else [] } := by
  dsimp only [step]
  rw [hleft]
  dsimp only
  rw [hrun]
  cases result <;> rfl

theorem outcome_cons {b : Bench} {effect : Effect} {effects : List Effect} {store : Store}
    {result : Except Error Unit} (hleft : b.left = effect :: effects)
    (hrun : effect.apply b.store = (result, store)) :
    b.outcome = if result.toBool then (store.perform effects).2 else store := by
  unfold outcome
  rw [hleft, Store.perform, hrun]
  cases result <;> rfl

theorem outcome_effect (sharding : Sharding) (b : Bench) :
    (b.step (.effect : Act sharding)).outcome = b.outcome := by
  cases hleft : b.left with
  | nil => rw [step_of_no_effect hleft]
  | cons effect effects =>
    cases hrun : effect.apply b.store with
    | mk result store =>
      rw [step_effect hleft hrun, outcome_cons hleft hrun]
      cases result with
      | error e => exact outcome_of_rest rfl
      | ok value => rfl

theorem outcome_begin {b : Bench} (hrest : b.left = []) (clock : Clock) (id : WorkItemId)
    (shard : Shard) :
    (b.step (.begin_ clock id shard : Act sharding)).outcome =
      (b.store.complete clock.storeNow id shard).2 := by
  dsimp only [step, plan?]
  rw [hrest]
  unfold Store.complete Store.withLane
  cases b.store.lane? shard with
  | none => exact outcome_of_rest hrest
  | some lane =>
    dsimp only
    cases b.store.completion clock.storeNow id lane with
    | error e => exact outcome_of_rest hrest
    | ok effects => rfl

theorem outcome_begin_run {b : Bench} (hrest : b.left = []) (clock : Clock) (id : WorkItemId)
    (shard : Shard) :
    (b.step (.begin_ clock id shard : Act sharding)).outcome =
      ((⟨clock, .operate (.complete id shard)⟩ : Store.Call sharding).run b.store).2 :=
  (outcome_begin hrest clock id shard).trans (Answer.map_snd _ _).symm

theorem after_effects (sharding : Sharding) (b : Bench) :
    ∃ n, (b.after (List.replicate n (.effect : Act sharding))).left = [] ∧
      (b.after (List.replicate n (.effect : Act sharding))).store = b.outcome := by
  generalize hleft : b.left = left
  induction left generalizing b with
  | nil => exact ⟨0, hleft, (outcome_of_rest hleft).symm⟩
  | cons effect effects ih =>
    rw [← outcome_effect sharding b]
    cases hrun : effect.apply b.store with
    | mk result store =>
      have hstep : b.step (.effect : Act sharding) =
          { b with store, left := if result.toBool then effects else [] } :=
        step_effect hleft hrun
      cases result with
      | error e =>
        refine ⟨1, congrArg left hstep, ?_⟩
        rw [hstep]
        exact (congrArg Bench.store hstep).trans (outcome_of_rest rfl).symm
      | ok value =>
        obtain ⟨n, hrest, hstore⟩ :=
          ih (b.step (.effect : Act sharding)) (congrArg Bench.left hstep)
        exact ⟨n + 1, hrest, hstore⟩

/-- With nothing in between, the effects of a completion complete the item. -/
theorem effects_complete (sharding : Sharding) {b : Bench} (hrest : b.left = []) (clock : Clock)
    (id : WorkItemId) (shard : Shard) :
    ∃ n, let done := b.after (.begin_ clock id shard ::
        List.replicate n (.effect : Act sharding))
      done.left = [] ∧ done.store = (b.store.complete clock.storeNow id shard).2 := by
  obtain ⟨n, hleft, hstore⟩ :=
    after_effects sharding (b.step (.begin_ clock id shard : Act sharding))
  refine ⟨n, hleft, hstore.trans ?_⟩
  exact outcome_begin hrest clock id shard

/-! ### What every bench comes to -/

/-- The messages that are yet to be posted. -/
def posts (b : Bench) : List BlockingMessage := b.left.flatMap Effect.messages

theorem posts_of_rest {b : Bench} (h : b.left = []) : b.posts = [] := by
  unfold posts
  rw [h]
  rfl

/-- What the effects that are left make of a lane. -/
def finished (b : Bench) (lane : Lane) : Lane := b.left.foldl (fun l effect => effect.onLane l) lane

theorem shard_finished (b : Bench) (lane : Lane) : (b.finished lane).shard = lane.shard := by
  unfold finished
  induction b.left generalizing lane with
  | nil => rfl
  | cons effect effects ih => exact (ih _).trans (effect.shard_onLane lane)

/-- Whether what is left of a completion concerns its shard, and the outcome is a sound and balanced
    store of the deployment. -/
structure Steady (sharding : Sharding) (b : Bench) : Prop where
  sharding : b.store.sharding = sharding
  shards : b.store.lanes.map (·.shard) = b.store.sharding.shards
  isAt : ∀ effect ∈ b.left, effect.IsAt b.shard (b.store.lanes.map (·.shard))
  known : b.left ≠ [] → ∃ lane, b.store.lane? b.shard = some lane
  sound : b.outcome.Sound
  balanced : b.outcome.Balanced

/-- Whether a shard can be polled, and what becomes of its lane then; the outcome has the lane with
    the messages that are yet to be posted. -/
structure Polls (b : Bench) (shard : Shard) (lane lane' : Lane) : Prop where
  free : b.IsFree shard
  here : b.store.lane? shard = some lane
  there : lane.receive b.posts ∈ b.outcome.lanes
  polled : lane.Polled b.outcome.sharding b.outcome.nextId lane'

namespace Steady

variable {b : Bench} {shard : Shard} {lane : Lane}

theorem nodup (h : b.Steady sharding) : (b.store.lanes.map (·.shard)).Nodup :=
  h.shards ▸ b.store.sharding.nodup_shards

theorem rest (hs : b.store.Sound) (hb : b.store.Balanced) (hsharding : b.store.sharding = sharding)
    (hrest : b.left = []) : b.Steady sharding where
  sharding := hsharding
  shards := hs.shards
  isAt effect he := by
    rw [hrest] at he
    cases he
  known hne := absurd hrest hne
  sound := by rwa [outcome_of_rest hrest]
  balanced := by rwa [outcome_of_rest hrest]

theorem sound_rest (h : b.Steady sharding) (hrest : b.left = []) : b.store.Sound :=
  outcome_of_rest hrest ▸ h.sound

theorem balanced_rest (h : b.Steady sharding) (hrest : b.left = []) : b.store.Balanced :=
  outcome_of_rest hrest ▸ h.balanced

theorem outcome_eq (h : b.Steady sharding) (hl : b.store.lane? b.shard = some lane) :
    b.outcome = b.store.replace (b.finished lane)
      (b.left.foldl (fun n effect => n + effect.used) 0) b.posts := by
  obtain ⟨hmem, hshard⟩ := Store.mem_of_lane? hl
  unfold outcome
  rw [Store.perform_self h.nodup hmem (hshard ▸ h.isAt)]
  rfl

/-- The outcome has the lane of a shard that can be polled as it is, with the messages that are yet
    to be posted. -/
theorem lane?_outcome (h : b.Steady sharding) (hfree : b.IsFree shard) :
    b.outcome.lane? shard = (b.store.lane? shard).map (·.receive b.posts) := by
  by_cases hrest : b.left = []
  · simp only [outcome_of_rest hrest, posts_of_rest hrest, Lane.receive_nil, Option.map_id']
  · obtain ⟨other, hother⟩ := h.known hrest
    have hapart : shard ≠ (b.finished other).shard := by
      rw [shard_finished, (Store.mem_of_lane? hother).2]
      exact hfree.resolve_left hrest
    rw [h.outcome_eq hother, Store.lane?_replace, if_neg hapart]

/-- Replacing the lane of another shard replaces it in the outcome. -/
theorem outcome_setLane (h : b.Steady sharding) (hfree : b.IsFree shard)
    (hl : b.store.lane? shard = some lane) {lane' : Lane} (hsame : lane'.shard = lane.shard) :
    { b with store := b.store.setLane lane' }.outcome =
      b.outcome.setLane (lane'.receive b.posts) := by
  obtain ⟨hmem, hshard⟩ := Store.mem_of_lane? hl
  by_cases hrest : b.left = []
  · rw [outcome_of_rest hrest, posts_of_rest hrest, Lane.receive_nil]
    exact outcome_of_rest hrest
  · obtain ⟨other, hother⟩ := h.known hrest
    obtain ⟨hmem', hshard'⟩ := Store.mem_of_lane? hother
    have hapart : other.shard ≠ lane'.shard := by
      rw [hshard', hsame, hshard]
      exact fun heq => hfree.resolve_left hrest heq.symm
    have hshards := Store.shards_setLane b.store lane'
    -- what is left of the completion falls on its own lane, so the two changes commute
    have hkept : other ∈ (b.store.setLane lane').lanes :=
      Store.mem_lanes_setLane.2 ⟨other, hmem', if_neg hapart⟩
    rw [h.outcome_eq hother,
      ← Store.setLane_replace (fun heq => hapart ((shard_finished b other) ▸ heq.symm))]
    show ((b.store.setLane lane').perform b.left).2 = _
    rw [Store.perform_self (hshards ▸ h.nodup) hkept (hshards ▸ hshard' ▸ h.isAt)]
    rfl

/-- A poll that does anything changes in the outcome what it changes in the lane of its shard. -/
theorem poll_cases (h : b.Steady sharding) (clock : Clock) (shard : Shard) :
    b.step (.poll clock shard : Act sharding) = b ∨ ∃ lane lane', b.Polls shard lane lane' ∧
      b.step (.poll clock shard : Act sharding) = { b with store := b.store.setLane lane' } ∧
      (b.step (.poll clock shard : Act sharding)).outcome =
        b.outcome.setLane (lane'.receive b.posts) := by
  by_cases hfree : b.IsFree shard
  · have hstep : b.step (.poll clock shard : Act sharding) =
        { b with store := (b.store.next clock.storeNow shard).2 } := if_pos hfree
    cases hl : b.store.lane? shard with
    | none =>
      left
      rw [hstep]
      unfold Store.next Store.withLane
      rw [hl]
    | some lane =>
      right
      have hthere : b.outcome.lane? shard = some (lane.receive b.posts) := by
        rw [h.lane?_outcome hfree, hl]
        rfl
      have hlane := Lane.sound_of_receive (h.sound.lane hthere)
      obtain ⟨lane', hpolled, hrun⟩ := Store.next_polled hlane hl clock.storeNow
      rw [hstep, hrun]
      refine ⟨lane, lane', ⟨hfree, hl, (Store.mem_of_lane? hthere).1, hpolled⟩, rfl, ?_⟩
      exact h.outcome_setLane hfree hl hpolled.shard
  · exact Or.inl (if_neg hfree)

theorem effect_eq (h : b.Steady sharding) {effect : Effect} {effects : List Effect}
    (hleft : b.left = effect :: effects) :
    ∃ lane, b.store.lane? b.shard = some lane ∧
      b.step (.effect : Act sharding) =
        { b with
          store := b.store.replace (effect.onLane lane) effect.used effect.messages
          left := effects } := by
  obtain ⟨lane, hl⟩ := h.known (hleft ▸ List.cons_ne_nil _ _)
  obtain ⟨hmem, hshard⟩ := Store.mem_of_lane? hl
  have hat : effect.IsAt lane.shard (b.store.lanes.map (·.shard)) :=
    hshard ▸ h.isAt effect (hleft ▸ List.mem_cons_self)
  exact ⟨lane, hl, step_effect hleft (Store.apply_self h.nodup hmem hat)⟩

/-! ### What keeps a bench steady -/

theorem call (h : b.Steady sharding) (c : Store.Call sharding)
    (noneCompleted : ∀ id shard, c.request ≠ .operate (.complete id shard)) :
    (b.step (.call c noneCompleted)).Steady sharding := by
  by_cases hrest : b.left = []
  · have hs := h.sound_rest hrest
    have hb := h.balanced_rest hrest
    obtain ⟨events, hmoves, -⟩ := c.traced hs h.sharding
    obtain ⟨hs', hsharding⟩ := c.run_sound hs h.sharding
    have hstep : b.step (.call c noneCompleted) = { b with store := (c.run b.store).2 } :=
      if_pos hrest
    rw [hstep]
    refine .rest hs' ?_ hsharding hrest
    exact hmoves.keeps (fun hs move hb => move.balanced hs hb) hs hb
  · rwa [show b.step (.call c noneCompleted) = b from if_neg hrest]

theorem poll (h : b.Steady sharding) (clock : Clock) (shard : Shard) :
    (b.step (.poll clock shard : Act sharding)).Steady sharding := by
  rcases h.poll_cases clock shard with hstep | ⟨lane, lane', hpolls, hstep, houtcome⟩
  · rwa [hstep]
  · have hshards := Store.shards_setLane b.store lane'
    have hreceived := hpolls.polled.receive b.posts
    rw [hstep] at houtcome ⊢
    constructor
    case sharding => exact h.sharding
    case shards => exact hshards.trans h.shards
    case isAt => exact hshards ▸ h.isAt
    case known =>
      intro hne
      obtain ⟨other, hother⟩ := h.known hne
      refine ⟨other, ?_⟩
      show (b.store.setLane lane').lane? b.shard = _
      rw [Store.lane?_setLane, if_neg, hother]
      rw [hpolls.polled.shard, (Store.mem_of_lane? hpolls.here).2]
      exact fun heq => hpolls.free.resolve_left hne heq.symm
    case sound =>
      rw [houtcome]
      exact Store.setLane_sound h.sound hreceived
    case balanced =>
      rw [houtcome]
      exact Store.setLane_balanced h.sound hpolls.there hreceived h.balanced

theorem begin_ (h : b.Steady sharding) (clock : Clock) (id : WorkItemId) (shard : Shard) :
    (b.step (.begin_ clock id shard : Act sharding)).Steady sharding := by
  cases hplan : b.plan? clock id shard with
  | none => rwa [step_of_no_plan hplan]
  | some effects =>
    obtain ⟨hrest, lane, hl, hcompletion⟩ := plan?_eq_some.1 hplan
    have hs := h.sound_rest hrest
    have hb := h.balanced_rest hrest
    obtain ⟨hmem, hshard⟩ := Store.mem_of_lane? hl
    let c : Store.Call sharding := ⟨clock, .operate (.complete id shard)⟩
    have houtcome : (b.step (.begin_ clock id shard : Act sharding)).outcome =
        (c.run b.store).2 := outcome_begin_run hrest clock id shard
    obtain ⟨events, hmoves, -⟩ := c.traced hs h.sharding
    rw [step_begin hplan] at houtcome ⊢
    constructor
    case sharding => exact h.sharding
    case shards => exact h.shards
    case isAt => exact hshard ▸ Store.isAt_of_mem_completion hs hmem hcompletion
    case known => exact fun _ => ⟨lane, hl⟩
    case sound =>
      rw [houtcome]
      exact (c.run_sound hs h.sharding).1
    case balanced =>
      rw [houtcome]
      exact hmoves.keeps (fun hs move hb => move.balanced hs hb) hs hb

theorem effect (h : b.Steady sharding) :
    (b.step (.effect : Act sharding)).Steady sharding := by
  have houtcome := outcome_effect sharding b
  cases hleft : b.left with
  | nil => rwa [step_of_no_effect hleft]
  | cons effect effects =>
    obtain ⟨lane, hl, hstep⟩ := h.effect_eq hleft
    obtain ⟨hmem, hshard⟩ := Store.mem_of_lane? hl
    have hshards := Store.shards_replace b.store (effect.onLane lane) effect.used effect.messages
    rw [hstep] at houtcome ⊢
    constructor
    case sharding => exact h.sharding
    case shards => exact hshards.trans h.shards
    case isAt =>
      intro other ho
      show other.IsAt b.shard ((b.store.replace _ _ _).lanes.map (·.shard))
      rw [hshards]
      exact h.isAt other (hleft ▸ List.mem_cons_of_mem _ ho)
    case known =>
      intro _
      refine ⟨(effect.onLane lane).receive effect.messages, ?_⟩
      show (b.store.replace _ _ _).lane? b.shard = _
      rw [Store.lane?_replace, if_pos ((effect.shard_onLane lane).trans hshard).symm, hl]
      rfl
    case sound =>
      rw [houtcome]
      exact h.sound
    case balanced =>
      rw [houtcome]
      exact h.balanced

theorem step (h : b.Steady sharding) (act : Act sharding) : (b.step act).Steady sharding := by
  cases act with
  | call c noneCompleted => exact h.call c noneCompleted
  | poll clock shard => exact h.poll clock shard
  | begin_ clock id shard => exact h.begin_ clock id shard
  | effect => exact h.effect

theorem after (h : b.Steady sharding) (acts : List (Act sharding)) :
    (b.after acts).Steady sharding := by
  induction acts generalizing b with
  | nil => exact h
  | cons act acts ih => exact ih (h.step act)

end Steady

theorem steady_reached (acts : List (Act sharding)) : (reached acts).Steady sharding := by
  have hfirst : Steady sharding { store := .empty sharding } :=
    .rest (.empty sharding) (Store.reached_balanced ([] : List (Store.Call sharding))) rfl rfl
  exact hfirst.after acts

end Bench

end Courier
