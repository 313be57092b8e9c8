import HostLisp.Decimal.Shortest

/-!
# Reading a decimal as a float

The text is an optional sign, digits with an optional fraction, and an optional power of ten; the
result is the float nearest to the number it names, ties going to the even mantissa.  A number too
large for a float reads as an infinity, one too small as a zero.
-/

namespace HostLisp.Decimal

/-- The float nearest to a decimal. -/
def toFloat (d : Decimal) : Float :=
  if 0 ≤ d.exponent then Float.ofScientific d.coefficient false d.exponent.toNat
  else Float.ofScientific d.coefficient true (-d.exponent).toNat

/-- A sign in front of `cs`, and what follows it. -/
def splitSign : List Char → Bool × List Char
  | '-' :: cs => (true, cs)
  | '+' :: cs => (false, cs)
  | cs => (false, cs)

/-- An optional power of ten at the end of a number. -/
def readExponent? : List Char → Option Int
  | [] => some 0
  | c :: cs =>
    let (negative, ds) := splitSign cs
    if (c = 'e' ∨ c = 'E') ∧ ds ≠ [] ∧ ds.all Char.isDigit then
      some (if negative then -(value ds : Int) else value ds)
    else none

/-- The fraction behind the whole part of a number, and what follows it. -/
def splitFraction : List Char → List Char × List Char
  | '.' :: cs => (cs.takeWhile Char.isDigit, cs.dropWhile Char.isDigit)
  | cs => ([], cs)

/-- Reads a whole text as a float. -/
def readFloat? (text : List Char) : Option Float :=
  let (negative, cs) := splitSign text
  let whole := cs.takeWhile Char.isDigit
  let (fraction, rest) := splitFraction (cs.dropWhile Char.isDigit)
  if whole.isEmpty && fraction.isEmpty then none
  else
    (readExponent? rest).map fun e =>
      let x := toFloat ⟨value (whole ++ fraction), e - fraction.length⟩
      if negative then -x else x

end HostLisp.Decimal
