import HostLisp.Time.Duration

/-!
# Instants

An instant is a signed number of nanoseconds from 1970-01-01T00:00:00Z whose whole seconds, rounded
down, fit in 64 bits.  Instants before that moment have a text without their distance.
-/

namespace HostLisp

/-- A point in time. -/
structure Instant where
  nanos : Int
  inRange : -9_223_372_036_854_775_808 * 1_000_000_000 ≤ nanos ∧
    nanos < 9_223_372_036_854_775_808 * 1_000_000_000
deriving DecidableEq

namespace Instant

instance : Inhabited Instant := ⟨⟨0, by decide⟩⟩

/-- A number of nanoseconds from 1970, if its seconds fit. -/
def ofNanos? (n : Int) : Option Instant :=
  if h : -9_223_372_036_854_775_808 * 1_000_000_000 ≤ n ∧
      n < 9_223_372_036_854_775_808 * 1_000_000_000 then some ⟨n, h⟩
  else none

/-- The instant so long after 1970-01-01. -/
def after? (d : Duration) : Option Instant := ofNanos? d.nanos

/-- The instant so long before 1970-01-01. -/
def before? (d : Duration) : Option Instant := ofNanos? (-d.nanos)

/-- Whole seconds from 1970, rounded down. -/
def seconds (t : Instant) : Int := t.nanos / 1_000_000_000

/-- Nanoseconds after the whole seconds. -/
def subsecond (t : Instant) : Nat := (t.nanos % 1_000_000_000).toNat

/-- Seconds and nine further digits for instants from 1970 on. -/
def chars (t : Instant) : List Char :=
  if 0 ≤ t.nanos then Decimal.signed t.seconds ++ '.' :: Decimal.padded 9 t.subsecond
  else "pre-epoch".toList

end Instant

end HostLisp
