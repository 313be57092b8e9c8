import HostLisp.Decimal.Digits

/-!
# Durations

A duration is a number of nanoseconds with at most `2 ^ 64 - 1` whole seconds.  Its text uses the
largest of the units s, ms, µs and ns with a non-zero whole part and drops zeros at the end of the
fraction; nothing at all is `0ns`.
-/

namespace HostLisp

/-- A span of time, never negative. -/
structure Duration where
  nanos : Nat
  inRange : nanos < 18_446_744_073_709_551_616 * 1_000_000_000
deriving DecidableEq

namespace Duration

instance : Inhabited Duration := ⟨⟨0, by decide⟩⟩

/-- A number of nanoseconds, if it has few enough whole seconds. -/
def ofNanos? (n : Nat) : Option Duration :=
  if h : n < 18_446_744_073_709_551_616 * 1_000_000_000 then some ⟨n, h⟩ else none

/-- `n` units of `10 ^ width` parts each, without zeros at the end of the fraction. -/
def inUnits (n width : Nat) (unit : List Char) : List Char :=
  let fraction := Decimal.padded width (n % Nat.pow 10 width)
  let shown := (fraction.reverse.dropWhile (· = '0')).reverse
  Decimal.digits (n / Nat.pow 10 width) ++ (if shown.isEmpty then [] else '.' :: shown) ++ unit

/-- The text of a duration. -/
def chars (d : Duration) : List Char :=
  if 1_000_000_000 ≤ d.nanos then inUnits d.nanos 9 ['s']
  else if 1_000_000 ≤ d.nanos then inUnits d.nanos 6 ['m', 's']
  else if 1_000 ≤ d.nanos then inUnits d.nanos 3 ['µ', 's']
  else Decimal.digits d.nanos ++ ['n', 's']

end Duration

end HostLisp
