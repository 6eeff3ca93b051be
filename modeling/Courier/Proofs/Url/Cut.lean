/-
  Courier/Proofs/Url/Cut.lean
  ===========================
  **Where the text of a URL is cut.**

  Every cut is made at the first or at the last place of a character, or in front of
  it.  What stands on the other side of that place has no influence on the cut: the
  lemmas here say so for each of them, with the text that may vary quantified last.
-/
import Courier.Url.Parser
import Mathlib.Data.List.TakeWhile

namespace Courier

namespace Text

variable {p : Char → Bool} {c : Char}

theorem dropWhile_append_cons (hc : p c = false) (a b : List Char) :
    (a ++ c :: b).dropWhile p = a.dropWhile p ++ c :: b := by
  induction a with
  | nil => simp [hc]
  | cons d a ih => cases hd : p d <;> simp [hd, ih]

theorem takeWhile_append_cons (hc : p c = false) (a b : List Char) :
    (a ++ c :: b).takeWhile p = a.takeWhile p := by
  induction a with
  | nil => simp [hc]
  | cons d a ih => cases hd : p d <;> simp [hd, ih]

theorem drop_length_takeWhile (p : Char → Bool) (cs : List Char) :
    cs.drop (cs.takeWhile p).length = cs.dropWhile p := by
  induction cs with
  | nil => rfl
  | cons d cs ih => cases hd : p d <;> simp [hd, ih]

end Text

namespace Url

open Courier.Text

variable {mark : Char} {cs front rest scheme : List Char}

/-! ### Tabs, line breaks and blanks -/

/-- Whether a character is dropped from the text of a URL wherever it stands. -/
def isBreak (c : Char) : Bool := c = '\t' || c = '\n' || c = '\r'

/-- A text without tabs and line breaks. -/
def unbroken (cs : List Char) : List Char := cs.filter fun c => !isBreak c

@[simp] theorem unbroken_append (a b : List Char) : unbroken (a ++ b) = unbroken a ++ unbroken b :=
  List.filter_append a b

@[simp] theorem unbroken_cons_of_kept {c : Char} (h : isBreak c = false) (cs : List Char) :
    unbroken (c :: cs) = c :: unbroken cs :=
  List.filter_cons_of_pos (by simp [h])

/-- Whether a character is dropped at both ends of the text of a URL. -/
def isOuter (c : Char) : Bool := c.toNat ≤ 0x20

theorem isBreak_of_isOuter_eq_false {c : Char} (h : isOuter c = false) : isBreak c = false := by
  cases hb : isBreak c with
  | false => rfl
  | true =>
    simp only [isBreak, Bool.or_eq_true, decide_eq_true_eq] at hb
    rcases hb with (rfl | rfl) | rfl <;> cases h

theorem cleaned_eq (cs : List Char) :
    cleaned cs = unbroken ((cs.dropWhile isOuter).reverse.dropWhile isOuter).reverse := rfl

/-- A text is cleaned by dropping characters. -/
theorem mem_of_mem_cleaned {c : Char} (h : c ∈ cleaned cs) : c ∈ cs := by
  rw [cleaned_eq] at h
  have hinner := List.mem_reverse.1 (List.mem_filter.1 h).1
  have hback := List.mem_reverse.1 ((List.dropWhile_suffix isOuter).subset hinner)
  exact (List.dropWhile_suffix isOuter).subset hback

/-- A text without control characters and blanks is clean. -/
theorem cleaned_eq_self (h : ∀ c ∈ cs, isOuter c = false) : cleaned cs = cs := by
  have hends : ∀ ds : List Char, (∀ c ∈ ds, isOuter c = false) → ds.dropWhile isOuter = ds :=
    fun ds hds => List.dropWhile_eq_self_iff.2 fun hlength => by
      simp [hds _ (List.getElem_mem hlength)]
  rw [cleaned_eq, hends cs h, hends cs.reverse fun c hc => h c (List.mem_reverse.1 hc),
    List.reverse_reverse]
  exact List.filter_eq_self.2 fun c hc => by simp [isBreak_of_isOuter_eq_false (h c hc)]

/-- What follows a character that is kept is cleaned on its own. -/
theorem exists_cleaned_append (hmark : isOuter mark = false) (rest : List Char) :
    ∃ rest', ∀ first front, isOuter first = false →
      cleaned (first :: front ++ mark :: rest) = unbroken (first :: front) ++ mark :: rest' := by
  refine ⟨unbroken (rest.reverse.dropWhile isOuter).reverse, fun first front hfirst => ?_⟩
  have hlead : (first :: front ++ mark :: rest).dropWhile isOuter =
      first :: front ++ mark :: rest :=
    List.dropWhile_cons_of_neg (by simp [hfirst])
  have htail : ((first :: front ++ mark :: rest).reverse.dropWhile isOuter).reverse =
      first :: front ++ mark :: (rest.reverse.dropWhile isOuter).reverse := by
    rw [List.reverse_append, List.reverse_cons, List.append_assoc, List.singleton_append,
      dropWhile_append_cons hmark]
    simp
  rw [cleaned_eq, hlead, htail, unbroken_append,
    unbroken_cons_of_kept (isBreak_of_isOuter_eq_false hmark)]

/-! ### Schemes -/

/-- Whether a character may stand in a scheme. -/
def isSchemeChar (c : Char) : Bool := isLetter c || isDigit c || c = '+' || c = '-' || c = '.'

/-- Whether a text is a scheme, in letters of either case. -/
def IsScheme (cs : List Char) : Prop :=
  (cs.head?.any isLetter) = true ∧ ∀ c ∈ cs, isSchemeChar c = true

instance (cs : List Char) : Decidable (IsScheme cs) :=
  have : Decidable (∀ c ∈ cs, isSchemeChar c = true) := List.decidableBAll _ cs
  inferInstanceAs (Decidable (_ ∧ ∀ c ∈ cs, isSchemeChar c = true))

theorem isOuter_of_isSchemeChar {c : Char} (h : isSchemeChar c = true) : isOuter c = false := by
  have hc : 0x20 < c.toNat := by
    simp only [isSchemeChar, isLetter, isDigit, Bool.or_eq_true, Bool.and_eq_true,
      decide_eq_true_eq, Char.le_def, UInt32.le_iff_toNat_le] at h
    rcases h with (((((h | h) | h) | rfl) | rfl) | rfl)
    · exact Nat.lt_of_lt_of_le (by decide) h.1
    · exact Nat.lt_of_lt_of_le (by decide) h.1
    · exact Nat.lt_of_lt_of_le (by decide) h.1
    all_goals decide
  exact decide_eq_false (by omega)

/-- Nothing is dropped from a scheme. -/
theorem IsScheme.unbroken (hs : IsScheme scheme) : unbroken scheme = scheme :=
  List.filter_eq_self.2 fun c hc => by
    simp [isBreak_of_isOuter_eq_false (isOuter_of_isSchemeChar (hs.2 c hc))]

/-- A scheme begins with a character that is not dropped. -/
theorem IsScheme.exists_cons (hs : IsScheme scheme) :
    ∃ first more, scheme = first :: more ∧ isOuter first = false := by
  cases scheme with
  | nil => cases hs.1
  | cons first more =>
    exact ⟨first, more, rfl, isOuter_of_isSchemeChar (hs.2 first List.mem_cons_self)⟩

/-- A text has a scheme exactly if it begins with one and a colon. -/
theorem scheme?_eq_some {found : List Char} :
    scheme? cs = some (found, rest) ↔
      ∃ scheme, IsScheme scheme ∧ cs = scheme ++ ':' :: rest ∧ found = lowercase scheme := by
  have hchars : (fun c => isLetter c || isDigit c || decide (c = '+') || decide (c = '-')
      || decide (c = '.')) = isSchemeChar := rfl
  constructor
  · intro h
    cases cs with
    | nil => cases h
    | cons first cs =>
      simp only [scheme?, hchars, drop_length_takeWhile] at h
      split at h
      · rename_i hletter hdrop
        obtain ⟨rfl, rfl⟩ := Prod.mk.inj (Option.some.inj h)
        have hwhole := List.takeWhile_append_dropWhile (p := isSchemeChar) (l := first :: cs)
        rw [hdrop] at hwhole
        refine ⟨_, ⟨?_, ?_⟩, hwhole.symm, rfl⟩
        · have hfirst : isSchemeChar first = true := by simp [isSchemeChar, hletter]
          rw [List.takeWhile_cons_of_pos hfirst]
          exact hletter
        · exact List.all_eq_true.1 List.all_takeWhile
      · cases h
  · rintro ⟨scheme, ⟨hletter, hall⟩, rfl, rfl⟩
    cases scheme with
    | nil => cases hletter
    | cons first scheme =>
      have hfirst : isLetter first = true := hletter
      have hcolon : isSchemeChar ':' = false := rfl
      have htake : (first :: scheme).takeWhile isSchemeChar = first :: scheme :=
        List.takeWhile_eq_self_iff.2 hall
      have hdrop : (first :: scheme).dropWhile isSchemeChar = [] := List.dropWhile_eq_nil_iff.2 hall
      simp only [scheme?, hchars, drop_length_takeWhile, List.cons_append]
      rw [← List.cons_append, takeWhile_append_cons hcolon, dropWhile_append_cons hcolon, hfirst,
        htake, hdrop]
      rfl

/-! ### Query and fragment -/

theorem cutAt_fst (mark : Char) (cs : List Char) :
    (cutAt mark cs).1 = cs.takeWhile (· ≠ mark) := by
  simp only [cutAt]
  split
  · rename_i hnone
    exact (List.takeWhile_eq_self_iff.2 (List.dropWhile_eq_nil_iff.1 hnone)).symm
  · rfl

/-- The hierarchical part ends in front of the query and of the fragment. -/
theorem Parts.front_ofText (cs : List Char) :
    (Parts.ofText cs).front = (cs.takeWhile (· ≠ '#')).takeWhile (· ≠ '?') := by
  rw [← cutAt_fst, ← cutAt_fst]
  rfl

theorem cutAt_append (h : mark ∉ front) (rest : List Char) :
    cutAt mark (front ++ rest) = (front ++ (cutAt mark rest).1, (cutAt mark rest).2) := by
  have hfront : ∀ c ∈ front, decide (c ≠ mark) = true := by
    intro c hc
    exact decide_eq_true fun he => h (he ▸ hc)
  simp only [cutAt, List.dropWhile_append_of_pos hfront, List.takeWhile_append_of_pos hfront]
  split <;> rfl

theorem cutAt_mark (h : mark ∉ front) (rest : List Char) :
    cutAt mark (front ++ mark :: rest) = (front, some rest) := by
  rw [cutAt_append h]
  simp [cutAt]

/-- The first place of a character is no further back than the one that is shown, so that something
    stands behind it if something stands behind that one. -/
theorem exists_cutAt_append (mark : Char) (front : List Char) :
    ∃ first, ∀ rest, rest ≠ [] → ∃ c found,
      cutAt mark (front ++ mark :: rest) = (first, some (c :: found)) := by
  by_cases hmem : mark ∈ front
  · obtain ⟨first, more, rfl, hfirst⟩ := List.eq_append_cons_of_mem hmem
    refine ⟨first, fun rest _ => ?_⟩
    have hsome : more ++ mark :: rest ≠ [] := by simp
    obtain ⟨c, found, hfound⟩ := List.exists_cons_of_ne_nil hsome
    refine ⟨c, found, ?_⟩
    rw [List.append_assoc, List.cons_append, hfound]
    exact cutAt_mark hfirst (c :: found)
  · refine ⟨front, fun rest hrest => ?_⟩
    obtain ⟨c, found, rfl⟩ := List.exists_cons_of_ne_nil hrest
    exact ⟨c, found, cutAt_mark hmem (c :: found)⟩

/-- What stands in front of the query and of the fragment is of the hierarchical part. -/
theorem Parts.ofText_append (hfragment : '#' ∉ front) (hquery : '?' ∉ front) (rest : List Char) :
    Parts.ofText (front ++ rest) =
      { Parts.ofText rest with front := front ++ (Parts.ofText rest).front } := by
  simp only [Parts.ofText, cutAt_append hfragment, cutAt_append hquery]

/-! ### The last place of a character -/

theorem exists_cutAtLast_append (mark : Char) (rest : List Char) :
    ∃ more host, ∀ front,
      cutAtLast mark (front ++ mark :: rest) = some (front ++ more, host) := by
  have hmark : decide (mark ≠ mark) = false := by simp
  have hreverse : ∀ front, (front ++ mark :: rest).reverse =
      rest.reverse ++ mark :: front.reverse := by
    simp
  cases hlast : rest.reverse.dropWhile (· ≠ mark) with
  | nil =>
    refine ⟨[], (rest.reverse.takeWhile (· ≠ mark)).reverse, fun front => ?_⟩
    simp only [cutAtLast, hreverse]
    rw [dropWhile_append_cons hmark, takeWhile_append_cons hmark, hlast]
    simp
  | cons found before =>
    refine ⟨mark :: before.reverse, (rest.reverse.takeWhile (· ≠ mark)).reverse, fun front => ?_⟩
    simp only [cutAtLast, hreverse]
    rw [dropWhile_append_cons hmark, takeWhile_append_cons hmark, hlast]
    simp

/-- The text behind the last place of a character, or all of it. -/
def behindLast (mark : Char) (cs : List Char) : List Char :=
  (cs.reverse.takeWhile (· ≠ mark)).reverse

theorem behindLast_of_cutAtLast_eq_none (h : cutAtLast mark cs = none) :
    behindLast mark cs = cs := by
  simp only [cutAtLast] at h
  split at h
  · rename_i hnone
    have hall := List.takeWhile_eq_self_iff.2 (List.dropWhile_eq_nil_iff.1 hnone)
    rw [behindLast, hall, List.reverse_reverse]
  · cases h

theorem behindLast_of_cutAtLast_eq_some {back : List Char}
    (h : cutAtLast mark cs = some (front, back)) : behindLast mark cs = back := by
  simp only [cutAtLast] at h
  split at h
  · cases h
  · exact (Prod.mk.inj (Option.some.inj h)).2

end Url

end Courier
