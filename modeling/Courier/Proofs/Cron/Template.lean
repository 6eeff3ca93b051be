/-
  Courier/Proofs/Cron/Template.lean
  =================================
  **A URL tells the occurrence it is enqueued for.**

  An occurrence is written into the URL of its job to the second, at every place of
  the mark `{0}`.  The text of an instant tells its second
  (`Instant.seconds_eq_of_toSecondsText`): all fields but the year have fixed widths.
  A replacement joins the pieces between the places of the mark with the text in
  between (`Text.replace_eq_joinWith`), so if there is a mark at all the length of the
  whole tells the length of the text, and the text stands behind the first piece.
  Hence no two occurrences of a job whose URL has the mark share a URL:
  `Job.urlFor_injective`.
-/
import Courier.Cron.Job
import Courier.Proofs.Text.Pieces
import Courier.Proofs.Time.Rfc3339

namespace Courier

namespace Text

/-! ### Replacing a pattern -/

theorem dropLead?_eq_some {lead cs rest : List Char} :
    dropLead? lead cs = some rest ↔ cs = lead ++ rest := by
  induction lead generalizing cs with
  | nil => simp [dropLead?, eq_comm]
  | cons l lead ih =>
    cases cs with
    | nil => simp [dropLead?]
    | cons c cs =>
      by_cases hc : l = c
      · simp [dropLead?, hc, ih]
      · simp [dropLead?, hc, Ne.symm hc]

/-- A replacement joins the pieces between the places of the pattern; if the pattern occurs, there
    are at least two. -/
theorem replace_eq_joinWith {pattern : List Char} (hpattern : pattern ≠ []) (cs : List Char) :
    ∃ first pieces, (∀ by_, replace pattern by_ cs = joinWith by_ (first :: pieces)) ∧
      (pattern <:+: cs → pieces ≠ []) := by
  suffices hgo : ∀ n, cs.length ≤ n → ∃ first pieces,
      (∀ by_, replace.go pattern by_ n cs = joinWith by_ (first :: pieces)) ∧
        (pattern <:+: cs → pieces ≠ []) from hgo cs.length (Nat.le_refl _)
  intro n hn
  induction n generalizing cs with
  | zero =>
    have hempty : cs = [] := List.length_eq_zero_iff.1 (Nat.le_zero.1 hn)
    subst hempty
    exact ⟨[], [], fun _ => rfl, fun h => absurd (List.infix_nil.1 h) hpattern⟩
  | succ n ih =>
    cases cs with
    | nil => exact ⟨[], [], fun _ => rfl, fun h => absurd (List.infix_nil.1 h) hpattern⟩
    | cons c rest =>
      have hrest : rest.length ≤ n := Nat.le_of_succ_le_succ hn
      cases hlead : dropLead? pattern (c :: rest) with
      | some after =>
        have hafter := congrArg List.length (dropLead?_eq_some.1 hlead)
        rw [List.length_cons, List.length_append] at hafter
        have hpos := List.length_pos_iff.2 hpattern
        obtain ⟨first, pieces, hjoin, -⟩ := ih after (by omega)
        refine ⟨[], first :: pieces, fun by_ => ?_, fun _ => List.cons_ne_nil _ _⟩
        simp only [replace.go, hlead, List.isEmpty_iff, hpattern, if_false]
        rw [hjoin, joinWith_cons]
        rfl
      | none =>
        obtain ⟨first, pieces, hjoin, hoccurs⟩ := ih rest hrest
        refine ⟨c :: first, pieces, fun by_ => ?_, fun h => ?_⟩
        · simp only [replace.go, hlead]
          rw [hjoin, joinWith_cons_head]
        · rcases List.infix_cons_iff.1 h with ⟨after, heq⟩ | hinfix
          · rw [dropLead?_eq_some.2 heq.symm] at hlead
            cases hlead
          · exact hoccurs hinfix

/-- What replaces a pattern that occurs can be told from the whole. -/
theorem eq_of_replace {pattern cs a b : List Char} (hpattern : pattern ≠ [])
    (hoccurs : pattern <:+: cs) (h : replace pattern a cs = replace pattern b cs) : a = b := by
  obtain ⟨first, pieces, hjoin, hsome⟩ := replace_eq_joinWith hpattern cs
  rw [hjoin, hjoin] at h
  cases pieces with
  | nil => exact absurd rfl (hsome hoccurs)
  | cons second rest => exact joinWith_injective h

theorem replace_ne_nil {pattern by_ cs : List Char} (hcs : cs ≠ []) (hby : by_ ≠ []) :
    replace pattern by_ cs ≠ [] := by
  obtain ⟨c, rest, rfl⟩ := List.exists_cons_of_ne_nil hcs
  unfold replace
  simp only [List.length_cons, replace.go]
  split
  · split <;> simp [hby]
  · simp

end Text

/-! ### The text of a second -/

namespace Time

open Text

theorem yearText_cases (year : Int) :
    (0 ≤ year ∧ yearText year = padded 4 year.toNat) ∨
      (year < 0 ∧ yearText year = '-' :: padded 4 year.natAbs) ∨
      (0 ≤ year ∧ yearText year = '+' :: padded 4 year.natAbs) := by
  unfold yearText
  split
  · exact Or.inl ⟨by omega, rfl⟩
  · split
    · exact Or.inr (Or.inl ⟨by omega, rfl⟩)
    · exact Or.inr (Or.inr ⟨by omega, rfl⟩)

theorem yearText_injective {a b : Int} (h : yearText a = yearText b) : a = b := by
  have hsign {sign : Char} {n : Nat} {cs : List Char} (hs : sign.isDigit = false) :
      padded 4 n ≠ sign :: cs := by
    intro heq
    have hdigit := isDigit_of_mem_padded (heq ▸ List.mem_cons_self : sign ∈ padded 4 n)
    rw [hs] at hdigit
    cases hdigit
  rcases yearText_cases a with ⟨ha, hta⟩ | ⟨ha, hta⟩ | ⟨ha, hta⟩ <;>
    rcases yearText_cases b with ⟨hb, htb⟩ | ⟨hb, htb⟩ | ⟨hb, htb⟩ <;>
    rw [hta, htb] at h
  · have hsame := padded_injective h
    omega
  · exact absurd h (hsign rfl)
  · exact absurd h (hsign rfl)
  · exact absurd h.symm (hsign rfl)
  · have hsame := padded_injective (List.cons.inj h).2
    omega
  · cases (List.cons.inj h).1
  · exact absurd h.symm (hsign rfl)
  · cases (List.cons.inj h).1
  · have hsame := padded_injective (List.cons.inj h).2
    omega

theorem padded_two_inj {a b : Nat} {before before' : List Char} {mark : Char} (ha : a < 100)
    (hb : b < 100) (h : before ++ mark :: padded 2 a = before' ++ mark :: padded 2 b) :
    before = before' ∧ a = b := by
  have hlength : (mark :: padded 2 a).length = (mark :: padded 2 b).length := by
    rw [List.length_cons, List.length_cons, length_padded (by decide) ha,
      length_padded (by decide) hb]
  obtain ⟨hbefore, hlast⟩ := List.append_inj' h hlength
  exact ⟨hbefore, padded_injective (List.cons.inj hlast).2⟩

theorem Date.text_injective {a b : Date} (ha : a.Valid) (hb : b.Valid) (h : a.text = b.text) :
    a = b := by
  obtain ⟨-, hmonth, -, hday⟩ := ha
  obtain ⟨-, hmonth', -, hday'⟩ := hb
  have hlast := (daysInMonth_bounds a.year a.month).2
  have hlast' := (daysInMonth_bounds b.year b.month).2
  obtain ⟨hfront, heq⟩ := padded_two_inj (by omega) (by omega) h
  obtain ⟨hyear, heq'⟩ := padded_two_inj (by omega) (by omega) hfront
  exact (Date.mk.injEq ..).mpr ⟨yearText_injective hyear, heq', heq⟩

theorem Civil.clockText_injective {a b : Civil} (ha : a.OnClock) (hb : b.OnClock)
    (h : a.clockText = b.clockText) :
    a.hour = b.hour ∧ a.minute = b.minute ∧ a.second = b.second := by
  obtain ⟨hhour, hminute, hsecond⟩ := ha
  obtain ⟨hhour', hminute', hsecond'⟩ := hb
  obtain ⟨hfront, heq⟩ := padded_two_inj (by omega) (by omega) h
  obtain ⟨hfirst, heq'⟩ := padded_two_inj (by omega) (by omega) hfront
  exact ⟨padded_injective hfirst, heq', heq⟩

theorem Civil.length_clockText {c : Civil} (h : c.OnClock) : c.clockText.length = 8 := by
  obtain ⟨hhour, hminute, hsecond⟩ := h
  unfold clockText
  simp only [List.length_append, List.length_cons]
  rw [length_padded (by decide) (by omega), length_padded (by decide) (by omega),
    length_padded (by decide) (by omega)]

/-- The text of an instant cut to its second tells the second. -/
theorem Instant.seconds_eq_of_toSecondsText {a b : Instant}
    (h : a.toSecondsText = b.toSecondsText) : a.seconds = b.seconds := by
  have ha : a.civil.OnClock := Civil.onClock_ofSeconds _ _
  have hb : b.civil.OnClock := Civil.onClock_ofSeconds _ _
  have hlist := List.append_cancel_right (String.ofList_injective h)
  have hlength : ('T' :: a.civil.clockText).length = ('T' :: b.civil.clockText).length := by
    rw [List.length_cons, List.length_cons, Civil.length_clockText ha, Civil.length_clockText hb]
  obtain ⟨hdate, hclock⟩ := List.append_inj' hlist hlength
  have hdates : a.civil.date = b.civil.date :=
    Date.text_injective (Date.valid_ofDays _) (Date.valid_ofDays _) hdate
  obtain ⟨hhour, hminute, hsecond⟩ := Civil.clockText_injective ha hb (List.cons.inj hclock).2
  have hsame : a.civil.toSeconds = b.civil.toSeconds := by
    unfold Civil.toSeconds
    rw [hdates, hhour, hminute, hsecond]
  calc a.seconds
      _ = a.civil.toSeconds := (Civil.toSeconds_ofSeconds _ _).symm
      _ = b.civil.toSeconds := hsame
      _ = b.seconds := Civil.toSeconds_ofSeconds _ _

end Time

/-! ### The URL of an occurrence -/

namespace Cron.Job

open Time

/-- Occurrences of a job whose URL has the mark are told apart by the URLs enqueued for them. -/
theorem urlFor_injective {job : Job} (hmark : occurrenceMark <:+: job.url.toList) {a b : Int}
    (h : job.urlFor (.ofSeconds a) = job.urlFor (.ofSeconds b)) : a = b := by
  have htext := Text.eq_of_replace (by decide) hmark (String.ofList_injective h)
  have hseconds := Instant.seconds_eq_of_toSecondsText (String.toList_injective htext)
  simp only [Instant.seconds, Instant.ofSeconds] at hseconds
  omega

theorem urlFor_ne_empty {job : Job} (hurl : job.url ≠ "") (occurrence : Instant) :
    job.urlFor occurrence ≠ "" := by
  have hchars : job.url.toList ≠ [] := fun h => hurl (String.toList_eq_nil_iff.1 h)
  have htext : occurrence.toSecondsText.toList ≠ [] := by
    unfold Instant.toSecondsText
    simp
  intro h
  exact Text.replace_ne_nil hchars htext (String.ofList_eq_empty_iff.1 h)

end Cron.Job

end Courier
