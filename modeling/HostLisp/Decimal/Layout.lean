import HostLisp.Decimal.Shortest

/-!
# The text of a float

A finite float is written with the digits of its shortest decimal: positionally, with at least one
digit on either side of the point, or with one digit before the point and a power of ten.  A
`Layout` says where the positional form ends and how the other form writes a bare digit.
-/

namespace HostLisp.Decimal

/-- How a float is laid out. -/
structure Layout where
  /-- The fewest digits before the point (negative: zeros behind it) that are written out. -/
  leastPoint : Int
  /-- The most digits before the point that are written out. -/
  mostPoint : Int
  /-- Whether a lone digit before a power of ten is followed by `.0`. -/
  dottedMantissa : Bool

/-- The significant digits without zeros at the end, and the place of the point in them. -/
def significant (d : Decimal) : List Char × Int :=
  let ds := digits d.coefficient
  ((ds.reverse.dropWhile (· = '0')).reverse, ds.length + d.exponent)

/-- Digits written out, with the point after the first `p` of them. -/
def positional (ds : List Char) (p : Int) : List Char :=
  if p ≤ 0 then '0' :: '.' :: (List.replicate (-p).toNat '0' ++ ds)
  else
    let whole := ds.take p.toNat ++ List.replicate (p.toNat - ds.length) '0'
    let fraction := ds.drop p.toNat
    whole ++ '.' :: (if fraction.isEmpty then ['0'] else fraction)

/-- Digits with the point after the first, and the power of ten. -/
def scientific (dotted : Bool) (ds : List Char) (p : Int) : List Char :=
  let fraction := ds.drop 1
  let tail := if fraction.isEmpty then (if dotted then ['.', '0'] else []) else '.' :: fraction
  ds.take 1 ++ tail ++ 'e' :: signed (p - 1)

/-- The text of a float.  What is not a number has no sign. -/
def Layout.chars (l : Layout) (x : Float) : List Char :=
  if x.isNaN then ['N', 'a', 'N']
  else
    let magnitude :=
      match Dyadic64.ofFloat? x with
      | none => ['i', 'n', 'f']
      | some d =>
        if d.mantissa = 0 then ['0', '.', '0']
        else
          let (ds, p) := significant d.shortest
          if l.leastPoint ≤ p ∧ p ≤ l.mostPoint then positional ds p
          else scientific l.dottedMantissa ds p
    if Nat.pow 2 63 ≤ x.toBits.toNat then '-' :: magnitude else magnitude

end HostLisp.Decimal
