import HostLisp.Decimal.Digits

/-!
# The shortest decimal that reads back

A finite `Float` other than zero is `m · 2 ^ q`.  Every real number nearer to it than to its
neighbours reads back as it; the ends of that interval do so too when `m` is even.  `shortest`
looks at the decimal grids of 1, 2, … 17 significant digits and takes the first one that has a
point in the interval; of the value's two neighbours on that grid the nearer one, and the upper
one when both are equally near.  Seventeen digits always suffice.
-/

namespace HostLisp

/-- The decimal number `coefficient · 10 ^ exponent`. -/
structure Decimal where
  coefficient : Nat
  exponent : Int
deriving Repr, DecidableEq

/-- A positive number `mantissa · 2 ^ exponent`. -/
structure Dyadic64 where
  mantissa : Nat
  exponent : Int
deriving Repr, DecidableEq

namespace Dyadic64

/-- The magnitude of a finite float; `none` for the infinities and for what is not a number. -/
def ofFloat? (x : Float) : Option Dyadic64 :=
  let bits : Nat := x.toBits.toNat
  let field : Nat := bits / Nat.pow 2 52 % Nat.pow 2 11
  let fraction : Nat := bits % Nat.pow 2 52
  if field = 2047 then none
  else if field = 0 then some ⟨fraction, -1074⟩
  else some ⟨Nat.pow 2 52 + fraction, (field : Int) - 1075⟩

/-- The value in quarters of a unit in the last place, with the ends of the interval that reads
back to it.  Below a power of two the neighbour is half as far away. -/
def quarters (d : Dyadic64) : Nat × Nat × Nat :=
  let v := 4 * d.mantissa
  let below := if d.mantissa = Nat.pow 2 52 ∧ -1074 < d.exponent then 1 else 2
  (v - below, v, v + 2)

/-- Factors that compare `c · 10 ^ k` with `l` quarters of a unit as `c · a` with `l · b`. -/
def factors (d : Dyadic64) (k : Int) : Nat × Nat :=
  (Nat.pow 10 k.toNat * Nat.pow 2 (2 - d.exponent).toNat,
    Nat.pow 2 (d.exponent - 2).toNat * Nat.pow 10 (-k).toNat)

/-- The number of digits before the decimal point: the least `p` with `d < 10 ^ p`. -/
def decade (d : Dyadic64) : Int :=
  let num := d.mantissa * Nat.pow 2 d.exponent.toNat
  let den := Nat.pow 2 (-d.exponent).toNat
  let a : Int := (Decimal.digits num).length
  let b : Int := (Decimal.digits den).length
  if den * Nat.pow 10 (a - b).toNat ≤ num * Nat.pow 10 (b - a).toNat then a - b + 1 else a - b

/-- The point of the grid `10 ^ k` nearest to `d` among those that read back as `d`. -/
def onGrid? (d : Dyadic64) (k : Int) : Option Nat :=
  let (low, v, high) := d.quarters
  let (a, b) := d.factors k
  let reads (c : Nat) : Bool :=
    if d.mantissa % 2 = 0 then low * b ≤ c * a && c * a ≤ high * b
    else low * b < c * a && c * a < high * b
  let floor := v * b / a
  let ceil := floor + 1
  match reads floor, reads ceil with
  | true, true => if v * b - floor * a < ceil * a - v * b then some floor else some ceil
  | true, false => some floor
  | false, true => some ceil
  | false, false => none

/-- The shortest decimal that reads back as `d`, for `0 < d`. -/
def shortest (d : Dyadic64) : Decimal :=
  let p := d.decade
  let attempt (n : Nat) : Option Decimal := (d.onGrid? (p - n)).map (⟨·, p - n⟩)
  ((List.range' 1 17).findSome? attempt).getD ⟨d.mantissa, 0⟩

end Dyadic64

end HostLisp
