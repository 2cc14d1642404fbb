/-!
# Instants

A `Duration` is a span of time, and an `Instant` is a reading of a clock that never goes back.  Both
are seconds and nanoseconds, of which there are fewer than make a second.  The seconds of an instant
are a signed 64-bit number, so that there is a last instant, and a span that leads beyond it cannot
be added (`isSome_add?_iff`).  A sum that there is, is exact (`add?_eq_some_iff`).
-/

namespace EntityCache

/-- A span of time. -/
structure Duration where
  seconds : Nat
  nanoseconds : Nat
  nanoseconds_lt : nanoseconds < 1000000000
deriving DecidableEq, Repr

namespace Duration

/-- The span of a number of milliseconds. -/
def ofMilliseconds (n : Nat) : Duration := ⟨n / 1000, n % 1000 * 1000000, by omega⟩

/-- The milliseconds of a span, without the rest. -/
def toMilliseconds (d : Duration) : Nat := d.seconds * 1000 + d.nanoseconds / 1000000

/-- All nanoseconds of a span. -/
def total (d : Duration) : Nat := d.seconds * 1000000000 + d.nanoseconds

/-- The span of a number of nanoseconds. -/
def ofTotal (n : Nat) : Duration := ⟨n / 1000000000, n % 1000000000, by omega⟩

@[simp] theorem total_ofTotal (n : Nat) : (ofTotal n).total = n := by
  simp only [total, ofTotal]
  omega

/-- The milliseconds of a span are its nanoseconds, with the division rounded down. -/
theorem toMilliseconds_eq (d : Duration) : d.toMilliseconds = d.total / 1000000 := by
  simp only [toMilliseconds, total]
  omega

@[simp] theorem toMilliseconds_ofMilliseconds (n : Nat) :
    (ofMilliseconds n).toMilliseconds = n := by
  simp only [toMilliseconds, ofMilliseconds]
  omega

@[simp] theorem total_ofMilliseconds (n : Nat) : (ofMilliseconds n).total = n * 1000000 := by
  simp only [total, ofMilliseconds]
  omega

end Duration

/-- A reading of a clock. -/
structure Instant where
  seconds : Int64
  nanoseconds : Nat
  nanoseconds_lt : nanoseconds < 1000000000
deriving DecidableEq, Repr

namespace Instant

/-- The last instant. -/
def last : Instant := ⟨Int64.maxValue, 999999999, by decide⟩

theorem minValue_le_add (seconds : Int64) (more : Nat) :
    Int64.minValue.toInt ≤ seconds.toInt + more := by
  have hleast := seconds.minValue_le_toInt
  omega

/-- A number of seconds with more added, if that is a 64-bit number. -/
def addSeconds? (seconds : Int64) (more : Nat) : Option Int64 :=
  if h : seconds.toInt + more ≤ Int64.maxValue.toInt then
    some (.ofIntLE (seconds.toInt + more) (minValue_le_add seconds more) h)
  else none

/-- The instant that comes a span later, if there is one. -/
def add? (t : Instant) (d : Duration) : Option Instant :=
  match addSeconds? t.seconds d.seconds with
  | none => none
  | some seconds =>
    if h : t.nanoseconds + d.nanoseconds < 1000000000 then
      some ⟨seconds, t.nanoseconds + d.nanoseconds, h⟩
    else
      (addSeconds? seconds 1).map fun seconds =>
        ⟨seconds, t.nanoseconds + d.nanoseconds - 1000000000,
          have := t.nanoseconds_lt
          have := d.nanoseconds_lt
          by omega⟩

instance : LT Instant where
  lt t u := t.seconds < u.seconds ∨ t.seconds = u.seconds ∧ t.nanoseconds < u.nanoseconds

instance (t u : Instant) : Decidable (t < u) :=
  inferInstanceAs (Decidable (_ ∨ _))

/-- All nanoseconds of an instant, counted from second zero. -/
def total (t : Instant) : Int := t.seconds.toInt * 1000000000 + t.nanoseconds

instance : LE Instant where
  le t u := t.total ≤ u.total

instance (t u : Instant) : Decidable (t ≤ u) :=
  inferInstanceAs (Decidable (_ ≤ (_ : Int)))

/-- The span from one instant to a later one; none to an earlier one. -/
def since (u t : Instant) : Duration := .ofTotal (u.total - t.total).toNat

variable {t u : Instant} {d : Duration}

/-! ## Instants as numbers -/

theorem total_le_last (t : Instant) : t.total ≤ last.total := by
  have hseconds := t.seconds.toInt_le
  have hnanoseconds := t.nanoseconds_lt
  simp only [total, last]
  omega

theorem total_inj : t.total = u.total ↔ t = u := by
  refine ⟨fun h => ?_, congrArg total⟩
  obtain ⟨seconds, nanoseconds, hnanoseconds⟩ := t
  obtain ⟨seconds', nanoseconds', hnanoseconds'⟩ := u
  simp only [total] at h
  obtain rfl : nanoseconds = nanoseconds' := by omega
  obtain rfl : seconds = seconds' := Int64.toInt_inj.1 (by omega)
  rfl

theorem lt_iff_total_lt : t < u ↔ t.total < u.total := by
  have ht := t.nanoseconds_lt
  have hu := u.nanoseconds_lt
  show t.seconds < u.seconds ∨ t.seconds = u.seconds ∧ t.nanoseconds < u.nanoseconds ↔ _
  rw [Int64.lt_iff_toInt_lt, ← Int64.toInt_inj, total, total]
  omega

/-- Every number of nanoseconds from that of an instant to the last one's is that of an instant. -/
theorem exists_total (t : Instant) {n : Nat} (h : t.total + n ≤ last.total) :
    ∃ u : Instant, u.total = t.total + n := by
  have hfirst := t.seconds.minValue_le_toInt
  simp only [total, last] at h
  have hlow : Int64.minValue.toInt ≤ (t.total + n) / 1000000000 := by
    rw [total]
    omega
  have hhigh : (t.total + n) / 1000000000 ≤ Int64.maxValue.toInt := by
    rw [total]
    omega
  refine ⟨⟨.ofIntLE _ hlow hhigh, ((t.total + n) % 1000000000).toNat, by omega⟩, ?_⟩
  simp only [total, Int64.toInt_ofIntLE]
  omega

/-- The nanoseconds between two instants, which may be none. -/
@[simp] theorem total_since (t u : Instant) : (u.since t).total = (u.total - t.total).toNat :=
  Duration.total_ofTotal _

/-! ## Sums -/

theorem addSeconds?_eq_some_iff {seconds seconds' : Int64} {more : Nat} :
    addSeconds? seconds more = some seconds' ↔ seconds'.toInt = seconds.toInt + more := by
  rw [addSeconds?]
  split
  case isTrue h => rw [Option.some.injEq, ← Int64.toInt_inj, Int64.toInt_ofIntLE, eq_comm]
  case isFalse h =>
    have hlast := seconds'.toInt_le
    refine iff_of_false nofun fun heq => h ?_
    omega

/-- Without a carry the seconds are added once. -/
theorem add?_of_lt (h : t.nanoseconds + d.nanoseconds < 1000000000) :
    t.add? d = (addSeconds? t.seconds d.seconds).map fun seconds =>
      ⟨seconds, t.nanoseconds + d.nanoseconds, h⟩ := by
  rw [add?]
  cases addSeconds? t.seconds d.seconds with
  | none => rfl
  | some seconds => exact dif_pos h

/-- A carry is one second more, which may be one too many. -/
theorem add?_of_not_lt (h : ¬t.nanoseconds + d.nanoseconds < 1000000000) :
    t.add? d = ((addSeconds? t.seconds d.seconds).bind (addSeconds? · 1)).map fun seconds =>
      ⟨seconds, t.nanoseconds + d.nanoseconds - 1000000000,
        have := t.nanoseconds_lt
        have := d.nanoseconds_lt
        by omega⟩ := by
  rw [add?]
  cases addSeconds? t.seconds d.seconds with
  | none => rfl
  | some seconds => exact dif_neg h

/-- A sum of an instant and a span has the nanoseconds of both. -/
theorem add?_eq_some_iff : t.add? d = some u ↔ u.total = t.total + d.total := by
  have ht := t.nanoseconds_lt
  have hd := d.nanoseconds_lt
  have hu := u.nanoseconds_lt
  -- seconds and nanoseconds are added apart from each other, and meet only in the carry
  by_cases hcarry : t.nanoseconds + d.nanoseconds < 1000000000
  · rw [add?_of_lt hcarry, Option.map_eq_some_iff]
    constructor
    · rintro ⟨seconds, hseconds, rfl⟩
      rw [addSeconds?_eq_some_iff] at hseconds
      simp only [total, Duration.total]
      omega
    · intro h
      simp only [total, Duration.total] at h
      have hseconds : u.seconds.toInt = t.seconds.toInt + d.seconds := by omega
      refine ⟨u.seconds, addSeconds?_eq_some_iff.2 hseconds, total_inj.1 ?_⟩
      simp only [total]
      omega
  · rw [add?_of_not_lt hcarry, Option.map_eq_some_iff]
    constructor
    · rintro ⟨seconds, hseconds, rfl⟩
      obtain ⟨whole, hwhole, hseconds⟩ := Option.bind_eq_some_iff.1 hseconds
      rw [addSeconds?_eq_some_iff] at hwhole hseconds
      simp only [total, Duration.total]
      omega
    · intro h
      simp only [total, Duration.total] at h
      have hlast := u.seconds.toInt_le
      have hseconds : u.seconds.toInt = t.seconds.toInt + d.seconds + 1 := by omega
      have hfits : t.seconds.toInt + d.seconds ≤ Int64.maxValue.toInt := by omega
      refine ⟨u.seconds, ?_, total_inj.1 ?_⟩
      · rw [addSeconds?, dif_pos hfits, Option.bind_some, addSeconds?_eq_some_iff,
          Int64.toInt_ofIntLE]
        omega
      · simp only [total]
        omega

/-- A span can be added if and only if it does not lead beyond the last instant. -/
theorem isSome_add?_iff : (t.add? d).isSome ↔ t.total + d.total ≤ last.total := by
  rw [Option.isSome_iff_exists]
  constructor
  · rintro ⟨u, hu⟩
    rw [← add?_eq_some_iff.1 hu]
    exact total_le_last u
  · intro h
    obtain ⟨u, hu⟩ := exists_total t h
    exact ⟨u, add?_eq_some_iff.2 hu⟩

end Instant

end EntityCache
