import HostLisp.Proofs.Duration.Amount
import HostLisp.Proofs.Timestamp.Calendar
import HostLisp.Proofs.Timestamp.Grammar

/-!
# The instant of a timestamp

A timestamp of the grammar names an instant if its date is in the calendar and its clock shows a
time of the day.  The instant lies as many days from 1970-01-01 as there are when they are counted
one by one, plus the time of the day, minus the offset, plus nine digits of the fraction:

    instant?_eq_some_iff : instant? cs = some t ↔
      ∃ s, Spells s cs ∧ s.Possible ∧ t.nanos = s.nanos

The distance from 1970 is taken apart into a sign and a duration, and both of these have their
limits, but years of four digits are far from them.
-/

namespace HostLisp

/-! ### Signed distances -/

theorem Instant.ofNanos?_eq_some_iff {n : Int} {t : Instant} :
    Instant.ofNanos? n = some t ↔ t.nanos = n := by
  unfold Instant.ofNanos?
  constructor
  · intro h
    split at h
    · cases h
      rfl
    · cases h
  · rintro rfl
    exact dif_pos t.inRange

namespace Timestamp

/-- Going by sign and magnitude makes no difference: durations reach further than instants. -/
theorem instantAt?_eq (n : Int) : instantAt? n = Instant.ofNanos? n := by
  unfold instantAt? Duration.ofNanos?
  by_cases hfit : n.natAbs < 18_446_744_073_709_551_616 * 1_000_000_000
  · rw [dif_pos hfit]
    show (if 0 ≤ n then Instant.after? ⟨n.natAbs, hfit⟩ else Instant.before? ⟨n.natAbs, hfit⟩) = _
    split
    · next hpos => exact congrArg Instant.ofNanos? (Int.natAbs_of_nonneg hpos)
    · next hneg =>
      refine congrArg Instant.ofNanos? ?_
      show -(n.natAbs : Int) = n
      omega
  · -- What is too much for a duration is too far away for an instant as well.
    rw [dif_neg hfit]
    have hnone : Instant.ofNanos? n = none := dif_neg (by omega)
    exact hnone.symm

/-! ### What a timestamp means -/

namespace Stamp

/-- The date of a timestamp. -/
def date (s : Stamp) : Calendar.Date := ⟨s.year, s.month, s.day⟩

/-- The date is in the calendar and the clock shows a time of the day. -/
structure Possible (s : Stamp) : Prop where
  date : s.date.Exists
  hour : s.hour ≤ 23
  minute : s.minute ≤ 59
  second : s.second ≤ 59

/-- The first nine digits of the fraction; zeros stand for digits that are missing. -/
def nineDigits (s : Stamp) : List Char := (s.fraction ++ List.replicate 9 '0').take 9

/-- The nanoseconds from 1970 if the date is that many days from 1970-01-01. -/
def nanosAt (s : Stamp) (days : Int) : Int :=
  (days * 86_400 + (s.hour * 3600 + s.minute * 60 + s.second) - s.offset) * 1_000_000_000 +
    Decimal.value s.nineDigits

variable {s : Stamp}

theorem inRange_iff : s.inRange = true ↔ s.Possible := by
  have hdate : s.date.Exists ↔ Calendar.isDate s.year s.month s.day = true := Calendar.exists_iff
  simp only [inRange, Bool.and_eq_true, decide_eq_true_eq, ← hdate]
  constructor
  · rintro ⟨⟨⟨hdate, hhour⟩, hminute⟩, hsecond⟩
    exact ⟨hdate, hhour, hminute, hsecond⟩
  · intro h
    exact ⟨⟨⟨h.date, h.hour⟩, h.minute⟩, h.second⟩

theorem value_zeros (n : Nat) : Decimal.value (List.replicate n '0') = 0 := by
  induction n with
  | zero => rfl
  | succ n ih =>
    rw [List.replicate_succ', Decimal.value_append_singleton, ih]
    rfl

/-- Scaling a short fraction is the same as writing zeros behind it. -/
theorem fractionNanos_eq (s : Stamp) : s.fractionNanos = Decimal.value s.nineDigits := by
  have hvalue : Decimal.value s.nineDigits =
      Decimal.value (s.fraction.take 9) * Nat.pow 10 (9 - s.fraction.length) := by
    unfold nineDigits
    rw [List.take_append, Decimal.value_append, List.take_replicate, value_zeros,
      List.length_replicate, Nat.add_zero, Nat.min_eq_left (Nat.sub_le ..)]
  have hlength : 9 - (s.fraction.take 9).length = 9 - s.fraction.length := by
    rw [List.length_take]
    omega
  unfold fractionNanos
  dsimp only
  rw [hlength, hvalue]
  split
  · next hempty =>
    rw [List.isEmpty_iff.1 hempty]
    exact (Nat.zero_mul _).symm
  · rfl

theorem nanos_eq (s : Stamp) :
    s.nanos = s.nanosAt (Calendar.daysSinceEpoch s.year s.month s.day) := by
  unfold nanos nanosAt seconds
  rw [fractionNanos_eq]
  push_cast
  rfl

/-! ### Limits -/

theorem value_nineDigits_lt (h : Duration.IsDigits s.fraction) :
    Decimal.value s.nineDigits < 1_000_000_000 := by
  have hdigits : ∀ c ∈ s.nineDigits, c.isDigit = true := by
    intro c hc
    obtain hc | hc := List.mem_append.1 (List.mem_of_mem_take hc)
    · exact h c hc
    · rw [List.eq_of_mem_replicate hc]
      rfl
  have hlength : s.nineDigits.length = 9 := by simp [nineDigits]
  have hlt := Decimal.value_lt hdigits
  rw [hlength] at hlt
  exact hlt

end Stamp

variable {n v : Nat} {cs w : List Char} {o : Int} {s : Stamp} {t : Instant} {text : String}

theorem Fixed.lt (h : Fixed n v w) : v < Nat.pow 10 n := by
  obtain ⟨hlen, hds⟩ := h
  exact hlen ▸ Decimal.value_lt hds

theorem Fraction.isDigits {fs : List Char} (h : Fraction fs w) : Duration.IsDigits fs := by
  cases h with
  | none => nofun
  | digits _ hds => exact hds

/-- Offsets are less than a day. -/
theorem Zone.range (h : Zone o w) : -86_400 < o ∧ o < 86_400 := by
  cases h with
  | zero => decide
  | ahead => omega
  | behind => omega

/-- All that the grammar allows is within three million days from 1970. -/
theorem Spells.nanos_range (h : Spells s w) (hs : s.Possible) :
    -1_000_000_000_000 * 1_000_000_000 ≤ s.nanos ∧
      s.nanos < 1_000_000_000_000 * 1_000_000_000 := by
  obtain ⟨days, hlasts, -, hday⟩ := hs.date
  obtain ⟨-, hmonth, rfl⟩ := Calendar.lasts_iff.1 hlasts
  cases h with
  | mk hdate _ _ hfraction hzone =>
    obtain ⟨hyear, -, -⟩ := hdate
    have hyear : s.year < 10_000 := hyear.lt
    have hdays : -1_000_000 ≤ Calendar.daysSinceEpoch s.year s.month s.day ∧
        Calendar.daysSinceEpoch s.year s.month s.day ≤ 3_000_000 :=
      Calendar.daysSinceEpoch_range (Int.natCast_nonneg _) (by omega) hmonth
        (hday.trans (Calendar.daysInMonth_le ..))
    have hzone := hzone.range
    have hnine := Stamp.value_nineDigits_lt hfraction.isDigits
    have hhour := hs.hour
    have hminute := hs.minute
    have hsecond := hs.second
    rw [Stamp.nanos_eq]
    unfold Stamp.nanosAt
    omega

/-! ### Reading -/

theorem instant?_eq_some_iff :
    instant? cs = some t ↔ ∃ s, Spells s cs ∧ s.Possible ∧ t.nanos = s.nanos := by
  have hspells (s : Stamp) : readStamp? cs = some (s, []) ↔ Spells s cs := by
    simp [readStamp?_eq_some_iff]
  unfold instant?
  constructor
  · intro h
    split at h
    · next s hread =>
      split at h
      · next hs =>
        rw [instantAt?_eq, Instant.ofNanos?_eq_some_iff] at h
        exact ⟨s, (hspells s).1 hread, Stamp.inRange_iff.1 hs, h⟩
      · cases h
    · cases h
  · rintro ⟨s, h, hs, hnanos⟩
    simp only [(hspells s).2 h, Stamp.inRange_iff.2 hs, if_true]
    rw [instantAt?_eq, Instant.ofNanos?_eq_some_iff]
    exact hnanos

theorem read_eq_ok_iff : read text = .ok t ↔ instant? text.toList = some t := by
  unfold read
  cases instant? text.toList <;> simp

/-- Whatever is possible has an instant. -/
theorem Spells.exists_instant (h : Spells s cs) (hs : s.Possible) :
    ∃ t : Instant, t.nanos = s.nanos := by
  have hrange := h.nanos_range hs
  exact ⟨⟨s.nanos, by omega⟩, rfl⟩

/-- A text is read exactly if it is a timestamp with a date of the calendar and a time of the day,
and as the instant that counting the days one by one leads to; the formula for the days counts them
in all years. -/
theorem read_by_calendar (text : String) :
    (∀ t, read text = .ok t ↔ ∃ s days, Spells s text.toList ∧ s.Possible ∧
        Calendar.Counted s.date days ∧ t.nanos = s.nanosAt days) ∧
      ((∃ t, read text = .ok t) ↔ ∃ s, Spells s text.toList ∧ s.Possible) ∧
      ∀ d n, Calendar.Counted d n ↔
        d.Exists ∧ n = Calendar.daysSinceEpoch d.year d.month d.day := by
  simp only [read_eq_ok_iff, instant?_eq_some_iff]
  refine ⟨fun t => ⟨?_, ?_⟩, ⟨?_, ?_⟩, fun d n => Calendar.counted_iff⟩
  · rintro ⟨s, h, hs, hnanos⟩
    rw [s.nanos_eq] at hnanos
    exact ⟨s, _, h, hs, Calendar.counted_iff.2 ⟨hs.date, rfl⟩, hnanos⟩
  · rintro ⟨s, days, h, hs, hcounted, hnanos⟩
    obtain ⟨-, rfl⟩ := Calendar.counted_iff.1 hcounted
    exact ⟨s, h, hs, hnanos.trans s.nanos_eq.symm⟩
  · rintro ⟨t, s, h, hs, -⟩
    exact ⟨s, h, hs⟩
  · rintro ⟨s, h, hs⟩
    obtain ⟨t, hnanos⟩ := h.exists_instant hs
    exact ⟨t, s, h, hs, hnanos⟩

/-- Half a second before 1970. -/
example : (read "1969-12-31T19:59:59.5-04:00").map Instant.nanos = .ok (-500_000_000) := by
  decide +kernel

end Timestamp

end HostLisp
