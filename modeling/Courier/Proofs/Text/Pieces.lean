/-
  Courier/Proofs/Text/Pieces.lean
  ===============================
  **Texts cut into pieces, and pieces put together.**

  Cutting a text at a separator and putting pieces together with the separator in
  between are the two functions of the standard library (`splitAt_eq_splitOn`,
  `joinWith_eq_intercalate`), and so inverse to each other as long as no piece holds
  the separator (`splitAt_joinWith`).
-/
import Courier.Text.Blank
import Mathlib.Algebra.Order.Ring.Nat

namespace Courier.Text

/-! ### Putting pieces together -/

theorem joinWith_cons (sep piece first : List Char) (pieces : List (List Char)) :
    joinWith sep (piece :: first :: pieces) = piece ++ (sep ++ joinWith sep (first :: pieces)) :=
  List.append_assoc ..

theorem joinWith_cons_head (sep : List Char) (c : Char) (piece : List Char)
    (pieces : List (List Char)) :
    joinWith sep ((c :: piece) :: pieces) = c :: joinWith sep (piece :: pieces) := by
  cases pieces <;> rfl

theorem length_joinWith (sep first : List Char) (pieces : List (List Char)) :
    (joinWith sep (first :: pieces)).length =
      first.length + (pieces.map (·.length)).sum + pieces.length * sep.length := by
  induction pieces generalizing first with
  | nil => simp [joinWith]
  | cons second rest ih =>
    rw [joinWith_cons, List.length_append, List.length_append, ih, List.map_cons, List.sum_cons,
      List.length_cons, Nat.succ_mul]
    omega

/-- What stands between at least two pieces can be told from the whole. -/
theorem joinWith_injective {sep sep' first second : List Char} {pieces : List (List Char)}
    (h : joinWith sep (first :: second :: pieces) = joinWith sep' (first :: second :: pieces)) :
    sep = sep' := by
  have hlength := congrArg List.length h
  rw [length_joinWith, length_joinWith, Nat.add_left_cancel_iff] at hlength
  have hsame : sep.length = sep'.length :=
    Nat.eq_of_mul_eq_mul_left (Nat.succ_pos pieces.length) hlength
  rw [joinWith_cons, joinWith_cons] at h
  exact (List.append_inj (List.append_cancel_left h) hsame).1

theorem joinWith_eq_intercalate (sep : List Char) (pieces : List (List Char)) :
    joinWith sep pieces = sep.intercalate pieces := by
  induction pieces with
  | nil => rfl
  | cons first pieces ih =>
    cases pieces with
    | nil => simp [joinWith, List.intercalate]
    | cons second pieces =>
      rw [joinWith_cons, ih]
      simp [List.intercalate, List.intersperse_cons_cons]

/-- What is put together of pieces has only the characters of the pieces and of the separator. -/
theorem mem_joinWith {sep : List Char} {pieces : List (List Char)} {c : Char}
    (hc : c ∈ joinWith sep pieces) : c ∈ sep ∨ ∃ piece ∈ pieces, c ∈ piece := by
  induction pieces with
  | nil => cases hc
  | cons first pieces ih =>
    cases pieces with
    | nil => exact Or.inr ⟨first, List.mem_cons_self, hc⟩
    | cons second pieces =>
      rw [joinWith_cons, List.mem_append, List.mem_append] at hc
      rcases hc with hc | hc | hc
      · exact Or.inr ⟨first, List.mem_cons_self, hc⟩
      · exact Or.inl hc
      · exact (ih hc).imp_right fun ⟨piece, hpiece, hmem⟩ =>
          ⟨piece, List.mem_cons_of_mem first hpiece, hmem⟩

/-! ### Cutting at a separator -/

theorem mem_splitAt {sep c : Char} {cs : List Char} (hc : c ∈ cs) (hne : c ≠ sep) :
    ∃ piece ∈ splitAt sep cs, c ∈ piece := by
  induction cs with
  | nil => cases hc
  | cons d rest ih =>
    by_cases hd : d = sep
    · subst hd
      obtain ⟨piece, hp, hcp⟩ := ih ((List.mem_cons.1 hc).resolve_left hne)
      exact ⟨piece, by simp [splitAt_cons_self, hp], hcp⟩
    · obtain ⟨first, pieces, hsplit⟩ := List.exists_cons_of_ne_nil (splitAt_ne_nil sep rest)
      rw [splitAt_cons_of_ne hd hsplit]
      rcases List.mem_cons.1 hc with rfl | hc
      · exact ⟨c :: first, by simp, by simp⟩
      · obtain ⟨piece, hp, hcp⟩ := ih hc
        rw [hsplit] at hp
        rcases List.mem_cons.1 hp with rfl | hp
        · exact ⟨d :: piece, by simp, List.mem_cons_of_mem d hcp⟩
        · exact ⟨piece, List.mem_cons_of_mem _ hp, hcp⟩

theorem splitAt_eq_splitOn (sep : Char) (cs : List Char) : splitAt sep cs = cs.splitOn sep := by
  induction cs with
  | nil => rfl
  | cons c rest ih =>
    obtain ⟨first, pieces, hsplit⟩ := List.exists_cons_of_ne_nil (splitAt_ne_nil sep rest)
    rw [List.splitOn, List.splitOnP_cons_eq_if_modifyHead, ← List.splitOn, ← ih]
    by_cases hc : c = sep
    · simp [hc, splitAt_cons_self]
    · simp [hc, splitAt_cons_of_ne hc hsplit, hsplit]

/-- Pieces that are put together with a separator are cut apart at it again. -/
theorem splitAt_joinWith {sep : Char} {pieces : List (List Char)}
    (hsep : ∀ piece ∈ pieces, sep ∉ piece) (hsome : pieces ≠ []) :
    splitAt sep (joinWith [sep] pieces) = pieces := by
  rw [splitAt_eq_splitOn, joinWith_eq_intercalate, List.splitOn_intercalate sep hsep hsome]

end Courier.Text
