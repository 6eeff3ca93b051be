/-
  Courier/Proofs/Poll/Interval.lean
  =================================
  **Intervals that fit the machine, and intervals that do not.**

  The number of seconds that an idle loop sleeps is an unsigned word.  The sleep is
  varied in milliseconds, which are counted in a signed word, and the allowance of the
  health check is a span whose seconds must be an unsigned word again.  Neither is
  checked when the setting is read.  `Config.interval_fits_iff` says for which
  settings the two come out as intended: those below some three hundred million years.
-/
import Courier.Poll.Loop
import Courier.Proofs.Config.Settings
import Mathlib.Algebra.Group.Int.Defs
import Mathlib.Algebra.Group.Nat.Defs

namespace Courier

open Courier.Text Courier.Time

namespace Poll

/-! ### Signed words -/

theorem word64_eq (n : Int) :
    word64 n = (n + 9223372036854775808) % 18446744073709551616 - 9223372036854775808 := by
  unfold word64
  rw [show Nat.pow 2 64 = 18446744073709551616 by rfl, Int.bmod_def]
  omega

theorem word64_add_word64 (n k : Int) : word64 (word64 n + k) = word64 (n + k) := by
  simp only [word64_eq]
  omega

/-- A count that a signed word can hold is kept. -/
theorem word64_of_small {n : Int} (hlow : -9223372036854775808 ≤ n)
    (hhigh : n < 9223372036854775808) : word64 n = n := by
  rw [word64_eq]
  omega

/-! ### How long an idle loop sleeps -/

variable {interval : Span} {offset : Int}

theorem jittered_of_le (h : interval ≤ jitterThreshold) (offset : Int) :
    jittered interval offset = interval :=
  if_pos h

theorem jittered_of_lt (h : ¬ interval ≤ jitterThreshold) (offset : Int) :
    jittered interval offset = .ofMillis (max 0 (word64 (interval.millis + offset))) := by
  unfold jittered
  rw [if_neg h, word64_add_word64]

/-- Where milliseconds can be counted, an interval is varied by the milliseconds given. -/
theorem jittered_of_small (hlong : ¬ interval ≤ jitterThreshold) (hlow : -5000 ≤ offset)
    (hsmall : interval.millis + offset < 2 ^ 63) :
    jittered interval offset = .ofMillis (interval.millis + offset) := by
  rw [jittered_of_lt hlong]
  have hthreshold : jitterThreshold.nanos < interval.nanos := Int.not_le.1 hlong
  have hpositive : 5000 ≤ interval.millis := by
    simp only [jitterThreshold, Span.ofSeconds] at hthreshold
    simp only [Span.millis]
    omega
  rw [word64_of_small (by omega) (by omega), Int.max_eq_right (by omega)]

/-- An idle sleep is at most five seconds longer than the interval, if milliseconds can be
    counted. -/
theorem jittered_le (hlow : -5000 ≤ offset) (hhigh : offset ≤ 5000)
    (hsmall : interval.millis + 5000 < 2 ^ 63) :
    jittered interval offset ≤
      if interval ≤ jitterThreshold then interval else interval + greatestJitter := by
  split
  · rename_i hshort
    exact Span.le_of_eq (jittered_of_le hshort offset)
  · rename_i hlong
    rw [jittered_of_small hlong hlow (by omega), Span.le_iff]
    simp only [Span.millis, Span.ofMillis, greatestJitter, Span.ofSeconds, Span.nanos_add]
    omega

/-- Whether a sleep is as long as an interval says: exactly so if the interval is short, and
    otherwise give or take five seconds. -/
structure KeepsTo (interval slept : Span) : Prop where
  short : interval ≤ jitterThreshold → slept = interval
  notShorter : interval - greatestJitter ≤ slept
  notLonger : slept ≤ interval + greatestJitter

/-- Idle sleeps keep to an interval exactly as long as a signed word can count its milliseconds and
    those of the greatest variation. -/
theorem keepsTo_iff (seconds : Nat) :
    (∀ offset, -5000 ≤ offset → offset ≤ 5000 →
      KeepsTo (.ofSeconds seconds) (jittered (.ofSeconds seconds) offset)) ↔
      1000 * seconds + 5000 < 2 ^ 63 := by
  have hshort : Span.ofSeconds seconds ≤ jitterThreshold ↔ seconds ≤ 30 := by
    simp only [Span.le_iff, jitterThreshold, Span.ofSeconds]
    omega
  have hmillis : (Span.ofSeconds seconds).millis = 1000 * seconds := by
    simp only [Span.millis, Span.ofSeconds]
    omega
  constructor
  · intro h
    refine Nat.not_le.1 fun hgreat => ?_
    -- the greatest variation takes the count past what the word can hold
    have hlong : ¬ Span.ofSeconds seconds ≤ jitterThreshold := by
      rw [hshort]
      omega
    have hsleep := (h 5000 (by decide) (by decide)).notShorter
    rw [jittered_of_lt hlong, hmillis, word64_eq, Span.le_iff] at hsleep
    simp only [Span.ofMillis, greatestJitter, Span.ofSeconds, Span.nanos_sub] at hsleep
    omega
  · intro hsmall offset hlow hhigh
    by_cases hle : Span.ofSeconds seconds ≤ jitterThreshold
    · rw [jittered_of_le hle]
      refine ⟨fun _ => rfl, ?_, ?_⟩
      · simp only [Span.le_iff, Span.nanos_sub, greatestJitter, Span.ofSeconds]
        omega
      · simp only [Span.le_iff, Span.nanos_add, greatestJitter, Span.ofSeconds]
        omega
    · rw [jittered_of_small hle hlow (by omega), hmillis]
      refine ⟨fun h => absurd h hle, ?_, ?_⟩
      · simp only [Span.le_iff, Span.nanos_sub, greatestJitter, Span.ofSeconds, Span.ofMillis]
        omega
      · simp only [Span.le_iff, Span.nanos_add, greatestJitter, Span.ofSeconds, Span.ofMillis]
        omega

/-! ### The allowance of the health check -/

theorem allowance?_ofSeconds (seconds : Nat) :
    allowance? (.ofSeconds seconds) =
      if seconds ≤ 30 then some (.ofSeconds seconds)
      else if seconds + 5 < 2 ^ 64 then some (.ofSeconds (seconds + 5))
      else none := by
  have hshort : Span.ofSeconds seconds ≤ jitterThreshold ↔ seconds ≤ 30 := by
    simp only [Span.le_iff, jitterThreshold, Span.ofSeconds]
    omega
  have hfits : Span.ofSeconds seconds + greatestJitter ≤ greatestDuration ↔
      seconds + 5 < 2 ^ 64 := by
    simp only [Span.le_iff, Span.nanos_add, greatestJitter, greatestDuration, Span.ofSeconds,
      show Nat.pow 2 64 = 18446744073709551616 by rfl]
    omega
  have hsum : Span.ofSeconds seconds + greatestJitter = .ofSeconds (seconds + 5) := by
    refine congrArg Span.mk ?_
    simp only [greatestJitter, Span.ofSeconds]
    omega
  rw [hsum] at hfits
  unfold allowance?
  simp only [hsum, hshort, hfits]

end Poll

/-! ### What is read as an interval -/

namespace Text

/-- Every integer that a text is read as lies in the range. -/
theorem readInteger_contains {range : IntegerRange} (hzero : range.Contains 0) {cs : List Char}
    {n : Int} (h : readInteger range cs = .ok n) : range.Contains n := by
  have hup : ∀ {digits : List Char}, readDigits range false digits 0 = .ok n →
      range.Contains n :=
    readDigits_contains hzero (Or.inr rfl) (Or.inl (Int.le_refl 0))
  unfold readInteger at h
  split at h
  · cases h
  · cases h
  · cases h
  · exact hup h
  · split at h
    · exact readDigits_contains hzero (Or.inl (Int.le_refl 0)) (Or.inr rfl) h
    · cases h
  · exact hup h

end Text

namespace Config

variable {toAscii : Url.DomainToAscii} {lookup : String → Option String} {config : Config}

/-- The interval that is configured is an unsigned word. -/
theorem pollIntervalSeconds_lt (h : ofLookup lookup toAscii = .ok config) :
    config.pollIntervalSeconds < 2 ^ 64 := by
  obtain ⟨seconds, hseconds, hconfig⟩ := (ofLookup_eq_ok_iff.1 h).pollInterval
  have hrange : (IntegerRange.unsigned 64).Contains seconds := by
    unfold Setting.read at hseconds
    split at hseconds
    · unfold Setting.integer at hseconds
      split at hseconds
      · rename_i n hn
        obtain rfl := Except.ok.inj hseconds
        exact readInteger_contains (by decide) hn
      · cases hseconds
    · obtain rfl := Except.ok.inj hseconds
      decide
  obtain ⟨hlow, hhigh⟩ := hrange
  simp only [IntegerRange.unsigned, show Nat.pow 2 64 = 18446744073709551616 by rfl] at hlow hhigh
  omega

/-- Of every interval that can be configured: idle sleeps keep to it exactly as long as its
    milliseconds, and five seconds more, fit a signed word, and the health check has an allowance
    exactly as long as its seconds, and five more, fit an unsigned one; then it is the interval,
    and five seconds more for a long one. -/
theorem interval_fits_iff (h : ofLookup lookup toAscii = .ok config) :
    let seconds := config.pollIntervalSeconds
    let interval := Span.ofSeconds seconds
    seconds < 2 ^ 64 ∧
      ((∀ offset, -5000 ≤ offset → offset ≤ 5000 →
        Poll.KeepsTo interval (Poll.jittered interval offset)) ↔
          1000 * seconds + 5000 < 2 ^ 63) ∧
      ((Poll.allowance? interval).isSome = true ↔ seconds + 5 < 2 ^ 64) ∧
      ∀ allowed, Poll.allowance? interval = some allowed →
        allowed = if seconds ≤ 30 then interval else .ofSeconds (seconds + 5) := by
  intro seconds interval
  have hcases : Poll.allowance? interval = _ := Poll.allowance?_ofSeconds seconds
  refine ⟨pollIntervalSeconds_lt h, Poll.keepsTo_iff seconds, ?_, ?_⟩
  · rw [hcases]
    split
    · exact iff_of_true rfl (by omega)
    · split
      · exact iff_of_true rfl ‹_›
      · exact iff_of_false Bool.false_ne_true ‹_›
  · intro allowed hallowed
    rw [hcases] at hallowed
    split at hallowed
    · rw [if_pos ‹_›]
      exact (Option.some.inj hallowed).symm
    · rw [if_neg ‹_›]
      split at hallowed
      · exact (Option.some.inj hallowed).symm
      · cases hallowed

/-- The settings of a service without a database that polls in an interval. -/
def withInterval (seconds : String) : String → Option String
  | "STORE_BACKEND" => some "memory"
  | "POLL_INTERVAL_SECS" => some seconds
  | _ => none

/-- There are intervals that are accepted and do not fit: with one of some six hundred million years
    an idle loop sleeps less than five seconds, and the greatest one has no allowance. -/
theorem accepted_interval_overflows :
    (∃ config, ofLookup (withInterval "18446744073709551") Url.asciiDomains = .ok config ∧
      (∀ offset, -5000 ≤ offset → offset ≤ 5000 →
        Poll.jittered (.ofSeconds config.pollIntervalSeconds) offset ≤ .ofMillis 4384) ∧
      ¬ ∀ offset, -5000 ≤ offset → offset ≤ 5000 →
        Poll.KeepsTo (.ofSeconds config.pollIntervalSeconds)
          (Poll.jittered (.ofSeconds config.pollIntervalSeconds) offset)) ∧
    ∃ config, ofLookup (withInterval "18446744073709551615") Url.asciiDomains = .ok config ∧
      (Poll.allowance? (.ofSeconds config.pollIntervalSeconds)).isSome = false := by
  have hread : ∀ text seconds, (ofLookup (withInterval text) Url.asciiDomains).toOption.map
      (·.pollIntervalSeconds) = some seconds →
        ∃ config, ofLookup (withInterval text) Url.asciiDomains = .ok config ∧
          config.pollIntervalSeconds = seconds := by
    intro text seconds h
    cases hconfig : ofLookup (withInterval text) Url.asciiDomains with
    | error e =>
      rw [hconfig] at h
      cases h
    | ok config =>
      rw [hconfig] at h
      exact ⟨config, rfl, Option.some.inj h⟩
  obtain ⟨long, hlong, hseconds⟩ := hread "18446744073709551" 18446744073709551 (by decide +kernel)
  obtain ⟨longest, hlongest, hmost⟩ :=
    hread "18446744073709551615" 18446744073709551615 (by decide +kernel)
  refine ⟨⟨long, hlong, ?_, ?_⟩, longest, hlongest, ?_⟩
  · intro offset hlow hhigh
    rw [hseconds, Poll.jittered_of_lt (by decide), Poll.word64_eq]
    simp only [Span.le_iff, Span.ofMillis, Span.millis, Span.ofSeconds]
    omega
  · rw [(interval_fits_iff hlong).2.1, hseconds]
    decide
  · have hnone := (interval_fits_iff hlongest).2.2.1
    rw [hmost] at hnone ⊢
    exact Bool.eq_false_iff.2 fun hsome => absurd (hnone.1 hsome) (by decide)

end Config

end Courier
