/-
  Courier/Proofs/Store/Perform.lean
  =================================
  **What a list of effects comes to.**

  A completion is carried out effect by effect, each on the store that the one
  before it left.  All of them but the messages concern one lane, so carrying them
  out comes to replacing that lane once (`Store.perform_replace`): by what the
  effects make of it, with the numbers they use up and the messages they post.
-/
import Courier.Proofs.Store.Move

namespace Courier

open Courier.Time

namespace Store

variable {s : Store} {lane : Lane} {used : Int} {messages : List BlockingMessage}

/-! ### Replacing a lane once more -/

theorem replace_nil (s : Store) (lane : Lane) (used : Int) :
    s.replace lane used [] = { s with nextId := s.nextId + used }.setLane lane := by
  unfold replace deliver
  simp only [Lane.receive_nil, List.map_id']

theorem replace_zero_nil (s : Store) (lane : Lane) : s.replace lane 0 [] = s.setLane lane := by
  rw [replace_nil, Int.add_zero]

/-- A lane is replaced by itself without a trace. -/
theorem setLane_self (hn : (s.lanes.map (·.shard)).Nodup) (hl : lane ∈ s.lanes) :
    s.setLane lane = s := by
  have hsame : (s.lanes.map fun other => if other.shard = lane.shard then lane else other) =
      s.lanes := by
    refine (List.map_congr_left ?_).trans (List.map_id _)
    intro other ho
    split
    · rename_i hshard
      exact (Keyed.eq_of_mem hn ho hl hshard).symm
    · rfl
  unfold setLane
  rw [hsame]

theorem Sound.setLane_self (h : s.Sound) (hl : lane ∈ s.lanes) : s.setLane lane = s :=
  Store.setLane_self h.nodup hl

theorem setLane_setLane (s : Store) {a b : Lane} (hshard : a.shard = b.shard) :
    (s.setLane a).setLane b = s.setLane b := by
  unfold setLane
  rw [List.map_map]
  congr 1
  refine List.map_congr_left ?_
  intro other _
  dsimp only [Function.comp_apply]
  by_cases ho : other.shard = b.shard
  · simp only [ho, hshard, if_true]
  · simp only [ho, hshard, if_false]

theorem replace_setLane (s : Store) {a b : Lane} (hshard : a.shard = b.shard) (used : Int)
    (messages : List BlockingMessage) :
    (s.setLane a).replace b used messages = s.replace b used messages := by
  have hset := setLane_setLane { s with nextId := s.nextId + used } hshard
  unfold replace
  exact congrArg (·.deliver messages) hset

/-- Changing the replaced lane changes what it was replaced by. -/
theorem updateLane_replace (s : Store) (lane : Lane) (used : Int)
    (messages : List BlockingMessage) {f : Lane → Lane} (hshard : (f lane).shard = lane.shard)
    (hreceive : f (lane.receive messages) = (f lane).receive messages) :
    (s.replace lane used messages).updateLane lane.shard f =
      s.replace (f lane) used messages := by
  unfold replace updateLane deliver setLane
  simp only [List.map_map]
  congr 1
  refine List.map_congr_left ?_
  intro other _
  dsimp only [Function.comp_apply]
  rw [hshard]
  by_cases ho : other.shard = lane.shard
  · have hsame : (lane.receive messages).shard = lane.shard := rfl
    simp only [ho, hsame, hreceive, if_true]
  · have hother : ¬ (other.receive messages).shard = lane.shard := ho
    simp only [ho, hother, if_false]

/-- A message to a shard of the deployment arrives. -/
theorem post_eq_deliver (hn : (s.lanes.map (·.shard)).Nodup) {m : BlockingMessage}
    (hm : m.target.shard ∈ s.lanes.map (·.shard)) : s.post m = (.ok (), s.deliver [m]) := by
  obtain ⟨target, htarget, hshard⟩ := List.mem_map.1 hm
  have hfind : s.lane? m.target.shard = some target := hshard ▸ Keyed.find?_of_mem hn htarget
  unfold post withLane
  rw [hfind]
  refine congrArg (Prod.mk _) ?_
  unfold setLane deliver
  congr 1
  refine List.map_congr_left ?_
  intro other ho
  dsimp only
  by_cases hs : other.shard = target.shard
  · rw [if_pos hs, Keyed.eq_of_mem hn ho htarget hs]
    simp [Lane.receive, hshard]
  · have hne : ¬ m.target.shard = other.shard := fun h => hs (h.symm.trans hshard.symm)
    simp [hs, hne, Lane.receive]

theorem deliver_replace (s : Store) (lane : Lane) (used : Int)
    (messages more : List BlockingMessage) :
    (s.replace lane used messages).deliver more = s.replace lane used (messages ++ more) := by
  unfold replace deliver
  rw [List.map_map]
  congr 1
  refine List.map_congr_left ?_
  intro other _
  exact Lane.receive_receive other messages more

end Store

/-! ### Effects on a lane -/

namespace Effect

/-- What an effect makes of the lane on which an item completes. -/
def onLane : Effect → Lane → Lane
  | .putLock queue lock, l => l.updateRow queue.name fun row => { row with lock := some lock }
  | .addPlaceholder item, l => l.addItem item
  | .post _, l => l
  | .rehead queue head lockedUntil, l => l.updateRow queue.name (·.rehead head lockedUntil)
  | .removeRow queue, l => l.removeRow queue.name
  | .removeItem _ id, l => l.removeItem id
  | .archive _ done, l => { l with completed := l.completed ++ [done] }

/-- How many item numbers an effect uses up. -/
def used : Effect → Int
  | .addPlaceholder _ => 1
  | _ => 0

/-- The messages that an effect posts. -/
def messages : Effect → List BlockingMessage
  | .post m => [m]
  | _ => []

/-- Whether an effect concerns one shard only, or posts to one of several shards. -/
def IsAt (shard : Shard) (shards : List Shard) : Effect → Prop
  | .putLock queue _ => queue.shard = shard
  | .addPlaceholder item => item.shard = shard
  | .post m => m.target.shard ∈ shards
  | .rehead queue _ _ => queue.shard = shard
  | .removeRow queue => queue.shard = shard
  | .removeItem target _ => target = shard
  | .archive target _ => target = shard

end Effect

namespace Store

variable {s : Store} {lane : Lane} {used : Int} {messages : List BlockingMessage}

theorem apply_replace (hn : (s.lanes.map (·.shard)).Nodup) {effect : Effect}
    (hat : effect.IsAt lane.shard (s.lanes.map (·.shard))) :
    effect.apply (s.replace lane used messages) =
      (.ok (), s.replace (effect.onLane lane) (used + effect.used)
        (messages ++ effect.messages)) := by
  have hhere : ∀ {target : Shard} {f : Lane → Lane}, target = lane.shard →
      (f lane).shard = lane.shard → f (lane.receive messages) = (f lane).receive messages →
      (s.replace lane used messages).updateLane target f =
        s.replace (f lane) (used + 0) (messages ++ []) := by
    intro target f ht hshard hreceive
    rw [ht, Int.add_zero, List.append_nil]
    exact updateLane_replace s lane used messages hshard hreceive
  cases effect with
  | putLock queue lock => exact congrArg (Prod.mk _) (hhere hat rfl rfl)
  | addPlaceholder item =>
    have hnext : ({ s.replace lane used messages with
        nextId := (s.replace lane used messages).nextId + 1 } : Store) =
        s.replace lane (used + 1) messages := by
      unfold replace deliver setLane
      simp only [Int.add_assoc]
    refine congrArg (Prod.mk _) ?_
    rw [hnext, show item.shard = lane.shard from hat]
    refine (updateLane_replace s lane (used + 1) messages rfl rfl).trans ?_
    rw [show (Effect.addPlaceholder item).messages = [] from rfl, List.append_nil]
    rfl
  | post m =>
    show (s.replace lane used messages).post m = _
    rw [post_eq_deliver (shards_replace s lane used messages ▸ hn)
      (shards_replace s lane used messages ▸ hat), deliver_replace,
      show (Effect.post m).used = 0 from rfl, Int.add_zero]
    rfl
  | rehead queue head lockedUntil => exact congrArg (Prod.mk _) (hhere hat rfl rfl)
  | removeRow queue => exact congrArg (Prod.mk _) (hhere hat rfl rfl)
  | removeItem target id => exact congrArg (Prod.mk _) (hhere hat rfl rfl)
  | archive target done => exact congrArg (Prod.mk _) (hhere hat rfl rfl)

/-- Effects on one lane, carried out one by one, replace that lane and post their messages. -/
theorem perform_replace (hn : (s.lanes.map (·.shard)).Nodup) (used : Int)
    (messages : List BlockingMessage) {effects : List Effect}
    (hat : ∀ effect ∈ effects, effect.IsAt lane.shard (s.lanes.map (·.shard))) :
    (s.replace lane used messages).perform effects =
      (.ok (), s.replace (effects.foldl (fun l effect => effect.onLane l) lane)
        (effects.foldl (fun n effect => n + effect.used) used)
        (messages ++ effects.flatMap Effect.messages)) := by
  induction effects generalizing lane used messages with
  | nil =>
    rw [List.flatMap_nil, List.append_nil]
    rfl
  | cons effect rest ih =>
    have hshard : (effect.onLane lane).shard = lane.shard := by cases effect <;> rfl
    unfold perform
    rw [apply_replace hn (hat effect List.mem_cons_self)]
    dsimp only
    rw [ih _ _ fun later hl => hshard ▸ hat later (List.mem_cons_of_mem _ hl), List.flatMap_cons,
      List.append_assoc]
    rfl

/-! ### Effects that only post -/

theorem onLane_blockEffects (blocking : Blocking) (isCreatingBlock : Bool) (token : BlockToken)
    (l : Lane) :
    (blockEffects blocking isCreatingBlock token).foldl (fun l effect => effect.onLane l) l =
      l := by
  cases blocking <;> rfl

theorem used_blockEffects (blocking : Blocking) (isCreatingBlock : Bool) (token : BlockToken)
    (n : Int) :
    (blockEffects blocking isCreatingBlock token).foldl (fun n effect => n + effect.used) n =
      n := by
  cases blocking with
  | none => rfl
  | queue target => exact Int.add_zero n

theorem messages_blockEffects (blocking : Blocking) (isCreatingBlock : Bool)
    (token : BlockToken) :
    (blockEffects blocking isCreatingBlock token).flatMap Effect.messages =
      blocking.messages isCreatingBlock token := by
  cases blocking <;> rfl

theorem isAt_of_mem_blockEffects {blocking : Blocking} {isCreatingBlock : Bool}
    {token : BlockToken} {shard : Shard} {shards : List Shard}
    (htarget : ∀ target, blocking = .queue target → target.shard ∈ shards) :
    ∀ effect ∈ blockEffects blocking isCreatingBlock token, effect.IsAt shard shards := by
  intro effect he
  cases blocking with
  | none => cases he
  | queue target =>
    rw [List.mem_singleton.1 he]
    exact htarget target rfl

end Store

end Courier
