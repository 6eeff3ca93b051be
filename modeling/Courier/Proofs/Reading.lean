/-
  Courier/Proofs/Reading.lean
  ===========================
  **Readings that may fail, one after the other.**

  A reading that goes on from what another one found succeeds only if both do
  (`exists_of_bind_eq_ok`).  A list is read element by element, and the first fault
  ends the reading: what is read of all the elements is what is read of each
  (`mem_of_mapM_eq_ok`), and a fault is that of an element
  (`exists_of_mapM_eq_error`).
-/
import Mathlib.Data.List.Forall2

namespace Courier

variable {ε α β : Type}

theorem exists_of_bind_eq_ok {found : Except ε α} {next : α → Except ε β} {b : β}
    (h : found >>= next = .ok b) : ∃ a, found = .ok a ∧ next a = .ok b := by
  cases found with
  | error e => cases h
  | ok a => exact ⟨a, rfl, h⟩

section List

variable {read : α → Except ε β} {as : List α} {bs : List β}

theorem forall₂_of_mapM_eq_ok (h : as.mapM read = .ok bs) :
    List.Forall₂ (fun a b => read a = .ok b) as bs := by
  induction as generalizing bs with
  | nil =>
    cases h
    exact List.Forall₂.nil
  | cons a as ih =>
    rw [List.mapM_cons] at h
    obtain ⟨first, hfirst, h⟩ := exists_of_bind_eq_ok h
    obtain ⟨rest, hrest, h⟩ := exists_of_bind_eq_ok h
    obtain rfl := Except.ok.inj h
    exact List.Forall₂.cons hfirst (ih hrest)

theorem mem_of_mapM_eq_ok (h : as.mapM read = .ok bs) (b : β) :
    b ∈ bs ↔ ∃ a ∈ as, read a = .ok b := by
  have hread := forall₂_of_mapM_eq_ok h
  clear h
  induction hread with
  | nil => simp
  | cons hfirst _ ih => simp [ih, hfirst, eq_comm]

theorem exists_of_mapM_eq_ok (h : as.mapM read = .ok bs) {a : α} (ha : a ∈ as) :
    ∃ b, read a = .ok b := by
  have hread := forall₂_of_mapM_eq_ok h
  clear h
  induction hread with
  | nil => cases ha
  | cons hfirst _ ih =>
    rcases List.mem_cons.1 ha with rfl | ha
    · exact ⟨_, hfirst⟩
    · exact ih ha

theorem exists_of_mapM_eq_error {e : ε} (h : as.mapM read = .error e) :
    ∃ a ∈ as, read a = .error e := by
  induction as with
  | nil => cases h
  | cons a as ih =>
    rw [List.mapM_cons] at h
    cases hfirst : read a with
    | error e' =>
      rw [hfirst] at h
      obtain rfl := Except.error.inj h
      exact ⟨a, List.mem_cons_self, hfirst⟩
    | ok first =>
      cases hrest : as.mapM read with
      | error e' =>
        rw [hfirst, hrest] at h
        obtain rfl := Except.error.inj h
        obtain ⟨a', ha', hread⟩ := ih hrest
        exact ⟨a', List.mem_cons_of_mem a ha', hread⟩
      | ok rest =>
        rw [hfirst, hrest] at h
        cases h

end List

end Courier
