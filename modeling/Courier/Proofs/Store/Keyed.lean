/-
  Courier/Proofs/Store/Keyed.lean
  ===============================
  **Lists in which no key occurs twice.**

  Where the keys of a list are distinct, a member is what a search for its key
  finds, and the key tells the members apart.  Items are moreover kept in the order
  of their numbers, so the first item with a property is the oldest one with it.
-/
import Courier.Store.Keyed

namespace Courier.Keyed

section Distinct

variable {α κ : Type} [DecidableEq κ] {key : α → κ} {members : List α}

theorem mem_of_find? (key : α → κ) {a : α} {k : κ} (h : members.find? (key · = k) = some a) :
    a ∈ members ∧ key a = k :=
  ⟨List.mem_of_find?_eq_some h, by simpa using List.find?_some h⟩

theorem find?_of_mem (hn : (members.map key).Nodup) {a : α} (ha : a ∈ members) :
    members.find? (key · = key a) = some a := by
  induction members with
  | nil => cases ha
  | cons b rest ih =>
    rw [List.map_cons, List.nodup_cons] at hn
    rw [List.find?_cons]
    rcases List.mem_cons.1 ha with rfl | hrest
    · simp
    · have hne : key b ≠ key a := fun h => hn.1 (h ▸ List.mem_map_of_mem hrest)
      simpa [hne] using ih hn.2 hrest

theorem eq_of_mem (hn : (members.map key).Nodup) {a b : α} (ha : a ∈ members) (hb : b ∈ members)
    (h : key a = key b) : a = b := by
  have hfa := find?_of_mem hn ha
  rw [h, find?_of_mem hn hb] at hfa
  exact (Option.some.inj hfa).symm

/-- A member of a list apart from the others. -/
theorem perm_cons_filter_ne (hn : (members.map key).Nodup) {a : α} (ha : a ∈ members) :
    members.Perm (a :: members.filter (key · ≠ key a)) := by
  induction members with
  | nil => cases ha
  | cons b rest ih =>
    rw [List.map_cons, List.nodup_cons] at hn
    rcases List.mem_cons.1 ha with rfl | hrest
    · have hothers : rest.filter (key · ≠ key a) = rest := by
        refine List.filter_eq_self.2 fun c hc => decide_eq_true fun hkey => hn.1 ?_
        exact hkey ▸ List.mem_map_of_mem hc
      rw [List.filter_cons_of_neg (by simp), hothers]
    · have hne : key b ≠ key a := fun h => hn.1 (h ▸ List.mem_map_of_mem hrest)
      have hkept : (b :: rest).filter (key · ≠ key a) = b :: rest.filter (key · ≠ key a) :=
        List.filter_cons_of_pos (decide_eq_true hne)
      rw [hkept]
      exact ((ih hn.2 hrest).cons b).trans (.swap a b _)

/-- What members add up to changes by what one of them changes by. -/
theorem perm_flatMap_change {β : Type} [DecidableEq β] (hn : (members.map key).Nodup) {a b : α}
    (ha : a ∈ members) (g : α → List β) :
    ((members.flatMap fun c => g (if key c = key a then b else c)) ++ g a).Perm
      (members.flatMap g ++ g b) := by
  induction members with
  | nil => cases ha
  | cons c rest ih =>
    rw [List.map_cons, List.nodup_cons] at hn
    rw [List.flatMap_cons, List.flatMap_cons]
    refine List.perm_iff_count.2 fun x => ?_
    rcases List.mem_cons.1 ha with rfl | hrest
    · have hothers : (rest.flatMap fun c => g (if key c = key a then b else c)) =
          rest.flatMap g := by
        refine congrArg List.flatten (List.map_congr_left fun d hd => ?_)
        have hne : key d ≠ key a := fun h => hn.1 (h ▸ List.mem_map_of_mem hd)
        rw [if_neg hne]
      rw [if_pos rfl, hothers]
      simp only [List.count_append]
      omega
    · have hne : key c ≠ key a := fun h => hn.1 (h ▸ List.mem_map_of_mem hrest)
      have hcount := List.perm_iff_count.1 (ih hn.2 hrest) x
      rw [if_neg hne]
      simp only [List.count_append] at hcount ⊢
      omega

/-- A key is found exactly if some member has it. -/
theorem find?_isSome {k : κ} :
    (members.find? (key · = k)).isSome = true ↔ ∃ a ∈ members, key a = k := by
  simp [List.find?_isSome]

theorem find?_eq_none {k : κ} :
    members.find? (key · = k) = none ↔ ∀ a ∈ members, key a ≠ k := by
  simp [List.find?_eq_none]

end Distinct

section Sorted

variable {α : Type} {key : α → Int} {members : List α}

theorem nodup_of_sorted (h : members.Pairwise (key · < key ·)) : (members.map key).Nodup := by
  refine List.pairwise_map.2 (h.imp ?_)
  intro a b hab heq
  omega

/-- The first member with a property has the least key of all with that property. -/
theorem find?_le_of_sorted (h : members.Pairwise (key · < key ·)) {p : α → Bool} {a b : α}
    (ha : members.find? p = some a) (hb : b ∈ members) (hpb : p b = true) : key a ≤ key b := by
  induction members with
  | nil => cases hb
  | cons c rest ih =>
    rw [List.pairwise_cons] at h
    rw [List.find?_cons] at ha
    cases hc : p c with
    | true =>
      simp only [hc, Option.some.injEq] at ha
      subst ha
      rcases List.mem_cons.1 hb with rfl | hrest
      · exact Int.le_refl _
      · exact Int.le_of_lt (h.1 b hrest)
    | false =>
      simp only [hc] at ha
      rcases List.mem_cons.1 hb with rfl | hrest
      · rw [hpb] at hc; cases hc
      · exact ih h.2 ha hrest

/-- What is first among the members with a property is the first of them. -/
theorem filter_eq_cons_of_first (h : members.Pairwise (key · < key ·)) {p : α → Bool} {a : α}
    (ha : a ∈ members) (hpa : p a = true) (hfirst : ∀ b ∈ members, p b = true → key a ≤ key b) :
    members.filter p = a :: (members.filter (key · ≠ key a)).filter p := by
  induction members with
  | nil => cases ha
  | cons c rest ih =>
    rw [List.pairwise_cons] at h
    rcases List.mem_cons.1 ha with rfl | hrest
    · have hothers : rest.filter (key · ≠ key a) = rest := by
        refine List.filter_eq_self.2 fun b hb => decide_eq_true ?_
        exact (Int.ne_of_lt (h.1 b hb)).symm
      rw [List.filter_cons_of_pos hpa, List.filter_cons_of_neg (by simp), hothers]
    · have hlt : key c < key a := h.1 a hrest
      have hpc : ¬ p c = true := fun hpc =>
        Int.not_le.2 hlt (hfirst c List.mem_cons_self hpc)
      have hkept : (c :: rest).filter (key · ≠ key a) = c :: rest.filter (key · ≠ key a) :=
        List.filter_cons_of_pos (decide_eq_true (Int.ne_of_lt hlt))
      rw [List.filter_cons_of_neg hpc, hkept, List.filter_cons_of_neg hpc]
      exact ih h.2 hrest fun b hb => hfirst b (List.mem_cons_of_mem _ hb)

/-- Removing a member without a property leaves the members with it. -/
theorem filter_filter_ne (h : (members.map key).Nodup) {p : α → Bool} {a : α} (ha : a ∈ members)
    (hpa : p a = false) : (members.filter (key · ≠ key a)).filter p = members.filter p := by
  rw [List.filter_filter]
  refine List.filter_congr ?_
  intro b hb
  by_cases hkey : key b = key a
  · rw [eq_of_mem h hb ha hkey, hpa, Bool.false_and]
  · rw [decide_eq_true hkey, Bool.and_true]

end Sorted

end Courier.Keyed
