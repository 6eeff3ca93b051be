/-
  Courier/Proofs/Url/Form.lean
  ============================
  **URLs with places left open.**

  A form is a text with open places, and whatever fills them makes it a text
  (`Form.fill`).  Taking characters off a text, dropping them and turning it round
  commute with the filling, as long as the question asked of each character has one
  answer throughout the filler.  So the text that host and port are read from is
  itself the filling of one form, the same for all fillers without the characters
  that divide a URL (`exists_serverText_fill`).
-/
import Courier.Proofs.Cron.Template
import Courier.Proofs.Url.Authority

namespace Courier

open Courier.Text

/-- A text in which places are left open. -/
abbrev Form := List (Option Char)

namespace Form

/-- The text of a form, with the same filler at each open place. -/
def fill (filler : List Char) (form : Form) : List Char :=
  form.flatMap fun place => place.elim filler fun c => [c]

section Fill

variable {filler : List Char} {form : Form} {p : Char → Bool}

@[simp] theorem fill_nil : fill filler [] = [] := rfl

@[simp] theorem fill_none_cons : fill filler (none :: form) = filler ++ fill filler form := rfl

@[simp] theorem fill_some_cons (c : Char) : fill filler (some c :: form) = c :: fill filler form :=
  rfl

@[simp] theorem fill_append (form form' : Form) :
    fill filler (form ++ form') = fill filler form ++ fill filler form' :=
  List.flatMap_append

@[simp] theorem fill_map_some (cs : List Char) : fill filler (cs.map some) = cs := by
  induction cs with
  | nil => rfl
  | cons c cs ih => rw [List.map_cons, fill_some_cons, ih]

/-- A form without open places is a text. -/
theorem exists_eq_map_some (h : none ∉ form) : ∃ cs : List Char, form = cs.map some := by
  induction form with
  | nil => exact ⟨[], rfl⟩
  | cons place form ih =>
    simp only [List.mem_cons, not_or] at h
    obtain ⟨cs, rfl⟩ := ih h.2
    cases place with
    | none => exact absurd rfl h.1
    | some c => exact ⟨c :: cs, rfl⟩

theorem reverse_fill (filler : List Char) (form : Form) :
    (fill filler form).reverse = fill filler.reverse form.reverse := by
  induction form with
  | nil => rfl
  | cons place form ih => cases place <;> simp [ih]

theorem takeWhile_fill (h : ∀ c ∈ filler, p c = true) (form : Form) :
    (fill filler form).takeWhile p = fill filler (form.takeWhile (·.all p)) := by
  induction form with
  | nil => rfl
  | cons place form ih =>
    cases place with
    | none => simp [List.takeWhile_append_of_pos h, ih]
    | some c => cases hc : p c <;> simp [hc, ih]

/-- An open place is not dropped if the filler has something that is kept in front. -/
theorem dropWhile_fill_of_kept (hsome : filler ≠ []) (h : ∀ c ∈ filler, p c = false) (form : Form) :
    (fill filler form).dropWhile p = fill filler (form.dropWhile (·.any p)) := by
  obtain ⟨first, rest, rfl⟩ := List.exists_cons_of_ne_nil hsome
  have hfirst := h first List.mem_cons_self
  induction form with
  | nil => rfl
  | cons place form ih =>
    cases place with
    | none => simp [hfirst]
    | some c => cases hc : p c <;> simp [hc, ih]

theorem filter_fill (h : ∀ c ∈ filler, p c = true) (form : Form) :
    (fill filler form).filter p = fill filler (form.filter (·.all p)) := by
  induction form with
  | nil => rfl
  | cons place form ih =>
    cases place with
    | none => simp [List.filter_eq_self.2 h, ih]
    | some c => cases hc : p c <;> simp [hc, ih]

/-- What stands in front of the first character of the filler is not filled in. -/
theorem exists_of_fill_eq_append {first : Char} {more front back : List Char}
    (hfirst : first ∉ front) (h : fill (first :: more) form = front ++ back) :
    ∃ behind, form = front.map some ++ behind ∧ back = fill (first :: more) behind := by
  induction front generalizing form with
  | nil => exact ⟨form, rfl, h.symm⟩
  | cons c front ih =>
    simp only [List.mem_cons, not_or] at hfirst
    match form with
    | [] => cases h
    | none :: form => exact absurd (List.cons.inj h).1 hfirst.1
    | some d :: form =>
      obtain ⟨rfl, htail⟩ := List.cons.inj h
      obtain ⟨behind, rfl, hback⟩ := ih hfirst.2 htail
      exact ⟨behind, rfl, hback⟩

end Fill

/-! ### The form of a replacement -/

/-- Pieces are put together to a form, with an open place between two of them. -/
theorem exists_fill_eq_joinWith (first : List Char) (pieces : List (List Char)) :
    ∃ form, ∀ sep, joinWith sep (first :: pieces) = fill sep form := by
  induction pieces generalizing first with
  | nil => exact ⟨first.map some, fun sep => (fill_map_some first).symm⟩
  | cons second pieces ih =>
    obtain ⟨form, hform⟩ := ih second
    refine ⟨first.map some ++ none :: form, fun sep => ?_⟩
    rw [joinWith_cons, hform, fill_append, fill_map_some, fill_none_cons]

theorem replace_self (pattern cs : List Char) : replace pattern pattern cs = cs := by
  have hgo : ∀ n cs, replace.go pattern pattern n cs = cs := by
    intro n
    induction n with
    | zero => exact fun _ => rfl
    | succ n ih =>
      intro cs
      cases cs with
      | nil => rfl
      | cons c rest =>
        simp only [replace.go, ih]
        split
        · rename_i hlead
          split
          · rfl
          · exact (dropLead?_eq_some.1 hlead).symm
        · rfl
  exact hgo _ cs

/-- Whatever a pattern is replaced by fills the same form, and the pattern itself does. -/
theorem exists_fill_eq_replace {pattern : List Char} (hpattern : pattern ≠ []) (cs : List Char) :
    ∃ form, (∀ by_, replace pattern by_ cs = fill by_ form) ∧ cs = fill pattern form := by
  obtain ⟨first, pieces, hjoin, -⟩ := replace_eq_joinWith hpattern cs
  obtain ⟨form, hform⟩ := exists_fill_eq_joinWith first pieces
  refine ⟨form, fun by_ => (hjoin by_).trans (hform by_), ?_⟩
  rw [← hform, ← hjoin, replace_self]

end Form

/-! ### Fillers -/

namespace Url

/-- Whether a character neither divides a URL nor is dropped from it. -/
def isPlain (c : Char) : Bool := !isOuter c && !"#?/\\@[".toList.contains c

/-- What may fill an open place in a URL without dividing it: plain characters, at least one. -/
structure IsFiller (cs : List Char) : Prop where
  ne_nil : cs ≠ []
  plain : ∀ c ∈ cs, isPlain c = true

theorem isPlain_iff {c : Char} :
    isPlain c = true ↔
      isOuter c = false ∧ c ≠ '#' ∧ c ≠ '?' ∧ c ≠ '/' ∧ c ≠ '\\' ∧ c ≠ '@' ∧ c ≠ '[' := by
  simp [isPlain]

theorem isPlain_of_isSchemeChar {c : Char} (h : isSchemeChar c = true) : isPlain c = true := by
  refine isPlain_iff.2 ⟨isOuter_of_isSchemeChar h, ?_⟩
  refine ⟨?_, ?_, ?_, ?_, ?_, ?_⟩ <;> rintro rfl <;> cases h

namespace IsFiller

variable {filler : List Char}

theorem reverse (h : IsFiller filler) : IsFiller filler.reverse :=
  ⟨by simpa using h.ne_nil, fun c hc => h.plain c (List.mem_reverse.1 hc)⟩

theorem isOuter_eq_false (h : IsFiller filler) : ∀ c ∈ filler, isOuter c = false :=
  fun c hc => (isPlain_iff.1 (h.plain c hc)).1

theorem isSlash_eq_false (h : IsFiller filler) : ∀ c ∈ filler, isSlash c = false := by
  intro c hc
  obtain ⟨-, -, -, hslash, hbackslash, -⟩ := isPlain_iff.1 (h.plain c hc)
  simp [isSlash, hslash, hbackslash]

theorem inAuthority (h : IsFiller filler) (scheme : List Char) :
    ∀ c ∈ filler, inAuthority scheme c = true := by
  intro c hc
  obtain ⟨-, -, -, hslash, hbackslash, -⟩ := isPlain_iff.1 (h.plain c hc)
  simp [Url.inAuthority, endsAuthority, hslash, hbackslash]

/-- A character that divides a URL is not in a filler. -/
theorem ne (h : IsFiller filler) {mark : Char} (hmark : isPlain mark = false) :
    ∀ c ∈ filler, decide (c ≠ mark) = true := by
  intro c hc
  refine decide_eq_true fun he => ?_
  rw [← he, h.plain c hc] at hmark
  cases hmark

end IsFiller

open Form

/-! ### The parts of a form -/

/-- A filled form is cleaned outside its open places. -/
theorem exists_cleaned_fill (form : Form) :
    ∃ form', ∀ filler, IsFiller filler → cleaned (fill filler form) = fill filler form' := by
  refine ⟨(((form.dropWhile (·.any isOuter)).reverse.dropWhile (·.any isOuter)).reverse).filter
    (·.all fun c => !isBreak c), fun filler hf => ?_⟩
  have hkept : ∀ c ∈ filler, (!isBreak c) = true := by
    intro c hc
    rw [isBreak_of_isOuter_eq_false (hf.isOuter_eq_false c hc)]
    rfl
  rw [cleaned_eq, dropWhile_fill_of_kept hf.ne_nil hf.isOuter_eq_false, reverse_fill,
    dropWhile_fill_of_kept hf.reverse.ne_nil hf.reverse.isOuter_eq_false, reverse_fill,
    List.reverse_reverse, unbroken, filter_fill hkept]

/-- What host and port are read from is the filling of one form. -/
theorem exists_serverText_fill (scheme : List Char) (form : Form) :
    ∃ form', ∀ filler, IsFiller filler →
      serverText scheme (fill filler form) = fill filler form' := by
  let front := (form.takeWhile (·.all (· ≠ '#'))).takeWhile (·.all (· ≠ '?'))
  let authority := (front.dropWhile (·.any isSlash)).takeWhile (·.all (inAuthority scheme))
  refine ⟨(authority.reverse.takeWhile (·.all (· ≠ '@'))).reverse, fun filler hf => ?_⟩
  rw [serverText, behindLast, Parts.front_ofText, takeWhile_fill (hf.ne rfl),
    takeWhile_fill (hf.ne rfl), dropWhile_fill_of_kept hf.ne_nil hf.isSlash_eq_false,
    takeWhile_fill (hf.inAuthority scheme), reverse_fill, takeWhile_fill (hf.reverse.ne rfl),
    reverse_fill, List.reverse_reverse]

/-- If one filling of a form has a scheme of its own, so have all: what fills the places stands
    behind it.  In each of them host and port are read from the filling of one form. -/
theorem exists_server_form {first : Char} {more scheme rest : List Char} {form : Form}
    (hfiller : IsFiller (first :: more)) (hfirst : isSchemeChar first = false)
    (hcolon : first ≠ ':')
    (h : scheme? (cleaned (fill (first :: more) form)) = some (scheme, rest)) :
    ∃ server : Form, ∀ filler, IsFiller filler → ∃ rest,
      scheme? (cleaned (fill filler form)) = some (scheme, rest) ∧
        serverText scheme rest = fill filler server := by
  obtain ⟨raw, hraw, hcs, rfl⟩ := scheme?_eq_some.1 h
  obtain ⟨form', hcleaned⟩ := exists_cleaned_fill form
  have hnot : first ∉ raw ++ [':'] := by
    simp only [List.mem_append, List.mem_singleton, not_or]
    refine ⟨fun hmem => ?_, hcolon⟩
    rw [hraw.2 first hmem] at hfirst
    cases hfirst
  have hwhole : fill (first :: more) form' = raw ++ [':'] ++ rest := by
    rw [← hcleaned _ hfiller, hcs, List.append_assoc, List.singleton_append]
  obtain ⟨behind, rfl, -⟩ := exists_of_fill_eq_append hnot hwhole
  obtain ⟨server, hserver⟩ := exists_serverText_fill (lowercase raw) behind
  refine ⟨server, fun filler hf => ⟨fill filler behind, ?_, hserver filler hf⟩⟩
  rw [hcleaned filler hf, fill_append, fill_map_some, List.append_assoc, List.singleton_append]
  exact scheme?_eq_some.2 ⟨raw, hraw, rfl, rfl⟩

end Url

end Courier
