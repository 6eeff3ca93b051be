/-
  Courier/Store/Keyed.lean
  ========================
  **Lists whose members are found by a key.**

  The store keeps items by number, rows and blocks by queue name and lanes by
  shard, each in a list that is searched for the first member with a key.  The
  lemmas below say what such a search finds after members with a key were changed,
  removed or added at the end.
-/

namespace Courier.Keyed

variable {α κ : Type} [DecidableEq κ]

/-- Changing the members with a key changes what is found under that key only. -/
theorem find?_map_change (key : α → κ) (change : α → α) (k other : κ)
    (hkey : ∀ a, key a = k → key (change a) = k) (members : List α) :
    (members.map fun a => if key a = k then change a else a).find? (key · = other) =
      if other = k then (members.find? (key · = other)).map change
      else members.find? (key · = other) := by
  induction members with
  | nil => simp
  | cons a rest ih =>
    rw [List.map_cons, List.find?_cons, List.find?_cons, ih]
    by_cases hk : key a = k
    · by_cases ho : key a = other
      · simp [hk, hkey a hk, ← ho]
      · have hne : ¬ k = other := fun h => ho (hk.trans h)
        have hne' : ¬ other = k := fun h => hne h.symm
        simp [hk, hkey a hk, hne, hne']
    · by_cases ho : key a = other
      · have hne : ¬ other = k := fun h => hk (ho.trans h)
        simp [ho, hne]
      · simp [hk, ho]

/-- Removing the members with a key leaves nothing under that key and all else as it was. -/
theorem find?_filter_ne (key : α → κ) (k other : κ) (members : List α) :
    (members.filter (key · ≠ k)).find? (key · = other) =
      if other = k then none else members.find? (key · = other) := by
  induction members with
  | nil => simp
  | cons a rest ih =>
    by_cases hk : key a = k
    · by_cases ho : other = k
      · simp_all
      · have hne : ¬ key a = other := fun h => ho (h.symm.trans hk)
        simp_all
    · by_cases ho : key a = other
      · have hne : ¬ other = k := fun h => hk (ho.trans h)
        simp_all
      · simp_all

/-- A member added at the end is found if none before it has its key. -/
theorem find?_append_single (key : α → κ) (a : α) (k : κ) (members : List α) :
    (members ++ [a]).find? (key · = k) =
      (members.find? (key · = k)).or (if key a = k then some a else none) := by
  simp only [List.find?_append, List.find?_singleton, decide_eq_true_eq]

end Courier.Keyed
