/-
  Courier/Time/Instant.lean
  =========================
  **Instants and the spans between them.**

  The clock of the service counts nanoseconds from the beginning of 1970 in
  Coordinated Universal Time.  Both an `Instant` and a `Span` are integers of
  nanoseconds, so clocks that go back and spans below zero need no special case,
  and the order of instants is the order of integers.
-/

namespace Courier.Time

/-! ### Spans -/

/-- A signed length of time. -/
structure Span where
  nanos : Int
deriving DecidableEq, Repr

namespace Span

def ofMillis (n : Int) : Span := ⟨n * 1000000⟩
def ofSeconds (n : Int) : Span := ⟨n * 1000000000⟩
def ofMinutes (n : Int) : Span := ofSeconds (n * 60)
def ofHours (n : Int) : Span := ofSeconds (n * 3600)
def ofDays (n : Int) : Span := ofSeconds (n * 86400)

/-- The whole milliseconds of a span, rounded towards the past. -/
def millis (s : Span) : Int := s.nanos / 1000000

/-- The whole seconds of a span, rounded towards the past. -/
def seconds (s : Span) : Int := s.nanos / 1000000000

instance : OfNat Span 0 := ⟨⟨0⟩⟩
instance : Inhabited Span := ⟨0⟩
instance : Add Span := ⟨fun a b => ⟨a.nanos + b.nanos⟩⟩
instance : Sub Span := ⟨fun a b => ⟨a.nanos - b.nanos⟩⟩
instance : LT Span := ⟨fun a b => a.nanos < b.nanos⟩
instance : LE Span := ⟨fun a b => a.nanos ≤ b.nanos⟩
instance (a b : Span) : Decidable (a < b) := inferInstanceAs (Decidable (a.nanos < b.nanos))
instance (a b : Span) : Decidable (a ≤ b) := inferInstanceAs (Decidable (a.nanos ≤ b.nanos))

theorem lt_iff {a b : Span} : a < b ↔ a.nanos < b.nanos := Iff.rfl
theorem le_iff {a b : Span} : a ≤ b ↔ a.nanos ≤ b.nanos := Iff.rfl
theorem le_of_eq {a b : Span} (h : a = b) : a ≤ b := by
  rw [h]
  exact Int.le_refl b.nanos

theorem le_antisymm {a b : Span} (h : a ≤ b) (h' : b ≤ a) : a = b := by
  cases a
  cases b
  exact congrArg mk (Int.le_antisymm h h')

@[simp] theorem nanos_add (a b : Span) : (a + b).nanos = a.nanos + b.nanos := rfl
@[simp] theorem nanos_sub (a b : Span) : (a - b).nanos = a.nanos - b.nanos := rfl
@[simp] theorem nanos_zero : (0 : Span).nanos = 0 := rfl

theorem le_add (a : Span) {b : Span} (h : 0 ≤ b) : a ≤ a + b := by
  simp only [le_iff, nanos_add, nanos_zero] at h ⊢
  omega

@[simp] theorem add_zero (a : Span) : a + 0 = a := le_antisymm (by simp [le_iff]) (by simp [le_iff])

theorem add_sub_cancel (a b : Span) : a + (b - a) = b := by
  apply le_antisymm
  all_goals
    simp only [le_iff, nanos_add, nanos_sub]
    omega

theorem sub_nonneg {a b : Span} (h : a < b) : 0 ≤ b - a := by
  simp only [lt_iff, le_iff, nanos_sub, nanos_zero] at h ⊢
  omega

end Span

/-! ### Instants -/

/-- A point in time, in nanoseconds since 1970-01-01T00:00:00Z. -/
structure Instant where
  nanos : Int
deriving DecidableEq, Repr

namespace Instant

/-- The beginning of 1970. -/
def epoch : Instant := ⟨0⟩

/-- The instant a number of whole seconds after the epoch. -/
def ofSeconds (n : Int) : Instant := ⟨n * 1000000000⟩

/-- The whole seconds since the epoch, rounded towards the past. -/
def seconds (t : Instant) : Int := t.nanos / 1000000000

/-- The nanoseconds past the last whole second. -/
def subsecond (t : Instant) : Nat := (t.nanos % 1000000000).toNat

instance : Inhabited Instant := ⟨epoch⟩
instance : HAdd Instant Span Instant := ⟨fun t s => ⟨t.nanos + s.nanos⟩⟩
instance : HSub Instant Span Instant := ⟨fun t s => ⟨t.nanos - s.nanos⟩⟩
instance : HSub Instant Instant Span := ⟨fun t u => ⟨t.nanos - u.nanos⟩⟩
instance : LT Instant := ⟨fun a b => a.nanos < b.nanos⟩
instance : LE Instant := ⟨fun a b => a.nanos ≤ b.nanos⟩
instance (a b : Instant) : Decidable (a < b) := inferInstanceAs (Decidable (a.nanos < b.nanos))
instance (a b : Instant) : Decidable (a ≤ b) := inferInstanceAs (Decidable (a.nanos ≤ b.nanos))

/-- The later of two instants. -/
def max (a b : Instant) : Instant := if a < b then b else a

/-- An instant at microsecond precision; the part that is lost moves it towards the beginning
    of 2000, the origin from which the database counts. -/
def storedPrecision (t : Instant) : Instant :=
  let origin : Int := 946684800 * 1000000000
  ⟨origin + Int.tdiv (t.nanos - origin) 1000 * 1000⟩

theorem lt_iff {a b : Instant} : a < b ↔ a.nanos < b.nanos := Iff.rfl
theorem le_iff {a b : Instant} : a ≤ b ↔ a.nanos ≤ b.nanos := Iff.rfl
theorem le_antisymm {a b : Instant} (h : a ≤ b) (h' : b ≤ a) : a = b := by
  cases a
  cases b
  exact congrArg mk (Int.le_antisymm h h')

theorem max_le_iff {a b c : Instant} : max a b ≤ c ↔ a ≤ c ∧ b ≤ c := by
  unfold max
  simp only [lt_iff, le_iff]
  split <;> omega

@[simp] theorem nanos_add (t : Instant) (s : Span) : (t + s).nanos = t.nanos + s.nanos := rfl
@[simp] theorem nanos_sub (t : Instant) (s : Span) : (t - s).nanos = t.nanos - s.nanos := rfl
@[simp] theorem nanos_sub_instant (t u : Instant) : (t - u).nanos = t.nanos - u.nanos := rfl

end Instant

end Courier.Time
