import HostLisp.Decimal.Reading
import HostLisp.Text.Quoted
import HostLisp.Time.Duration

/-!
# Reading durations

A duration is written as an optional sign and `0`, or as an optional sign and one or more
components such as `1h`, `.5s` or `250ms`: digits with an optional fraction, either side of the
point possibly empty but not both, and a unit.  It means the sum of its components, each fraction
cut to whole nanoseconds.  Digits of a fraction after the eighteenth are not looked at.  The sum is
calculated with numbers of 128 bits; whole numbers and sums are checked to fit, the scaling of a
fraction is not.
-/

namespace HostLisp.Duration

/-- Why a calculation with numbers of 128 bits has no result. -/
inductive Fault where
  /-- There is nothing to calculate with, or a checked result does not fit. -/
  | refused
  /-- A result that is not checked does not fit. -/
  | overflow
  | divisionByZero
deriving DecidableEq

/-- Why a text is no duration. -/
inductive ReadError where
  | invalid (text : String)
  | negative (text : String)
  /-- The calculation broke down. -/
  | broken (fault : Fault)
deriving DecidableEq

/-- The wording of an error. -/
def ReadError.message : ReadError → String
  | .invalid text => "invalid duration " ++ Text.quotedString text
  | .negative text => "negative duration " ++ Text.quotedString text ++ " is not supported"
  | .broken .divisionByZero => "attempt to divide by zero"
  | .broken _ => "attempt to calculate with overflow"

/-- A unit in front of a text: its nanoseconds, and what follows it. -/
def readUnit? : List Char → Option (Nat × List Char)
  | 'n' :: 's' :: r => some (1, r)
  | 'u' :: 's' :: r => some (1_000, r)
  | 'µ' :: 's' :: r => some (1_000, r)
  | 'μ' :: 's' :: r => some (1_000, r)
  | 'm' :: 's' :: r => some (1_000_000, r)
  | 's' :: r => some (1_000_000_000, r)
  | 'm' :: r => some (60 * 1_000_000_000, r)
  | 'h' :: r => some (3600 * 1_000_000_000, r)
  | _ => none

/-- One component of a duration, as written. -/
structure Component where
  whole : List Char
  fraction : List Char
  unit : Nat
deriving DecidableEq

/-- A component in front of a text, and what follows it. -/
def readComponent? (cs : List Char) : Option (Component × List Char) :=
  let whole := cs.takeWhile Char.isDigit
  let tail := Decimal.splitFraction (cs.dropWhile Char.isDigit)
  (readUnit? tail.2).map fun u => (⟨whole, tail.1, u.1⟩, u.2)

theorem length_readUnit? {cs r : List Char} {n : Nat} (h : readUnit? cs = some (n, r)) :
    r.length < cs.length := by
  unfold readUnit? at h
  split at h
  case h_9 => cases h
  all_goals
    cases h
    grind

theorem length_dropWhile_le {α : Type} (p : α → Bool) (l : List α) :
    (l.dropWhile p).length ≤ l.length := (List.dropWhile_sublist p).length_le

theorem length_splitFraction (cs : List Char) :
    (Decimal.splitFraction cs).2.length ≤ cs.length := by
  unfold Decimal.splitFraction
  split
  · exact Nat.le_trans (length_dropWhile_le _ _) (Nat.le_succ _)
  · exact Nat.le_refl _

theorem length_readComponent? {cs r : List Char} {c : Component}
    (h : readComponent? cs = some (c, r)) : r.length < cs.length := by
  obtain ⟨⟨n, r'⟩, hu, he⟩ := Option.map_eq_some_iff.1 h
  have hr : r' = r := (Prod.mk.inj he).2
  subst hr
  have h₁ := length_readUnit? hu
  have h₂ := length_splitFraction (cs.dropWhile Char.isDigit)
  have h₃ := length_dropWhile_le Char.isDigit cs
  omega

/-- A whole text as a row of components. -/
def readComponents? (cs : List Char) : Option (List Component) :=
  if cs.isEmpty then some []
  else
    match h : readComponent? cs with
    | none => none
    | some (c, rest) =>
      have : rest.length < cs.length := length_readComponent? h
      (readComponents? rest).map (c :: ·)
termination_by cs.length

/-! ### Arithmetic on 128 bits -/

/-- A result that is checked to fit. -/
def checked (n : Nat) : Except Fault Nat :=
  if n < Nat.pow 2 128 then .ok n else .error .refused

/-- A result that is not checked: one that does not fit is an overflow. -/
def unchecked (n : Nat) : Except Fault Nat :=
  if n < Nat.pow 2 128 then .ok n else .error .overflow

/-- A quotient, rounded down. -/
def quotient (n d : Nat) : Except Fault Nat :=
  if d = 0 then .error .divisionByZero else .ok (n / d)

/-- How many digits of a fraction are looked at. -/
def fractionDigits : Nat := 18

/-- The nanoseconds of a fraction of a unit, by its first digits. -/
def fractionNanos (fraction : List Char) (unit : Nat) : Except Fault Nat :=
  let digits := fraction.take fractionDigits
  if digits.isEmpty then .ok 0
  else do
    let n ← checked (Decimal.value digits)
    let scaled ← unchecked (n * unit)
    let power ← unchecked (Nat.pow 10 digits.length)
    quotient scaled power

/-- Adds the nanoseconds of a component; neither side of the point having a digit is refused. -/
def Component.addTo (total : Nat) (c : Component) : Except Fault Nat :=
  if c.whole.isEmpty && c.fraction.isEmpty then .error .refused
  else do
    let whole ← checked (Decimal.value c.whole)
    let part ← fractionNanos c.fraction c.unit
    let nanos ← checked (whole * c.unit)
    let nanos ← checked (nanos + part)
    checked (total + nanos)

/-- The nanoseconds of a row of components. -/
def sum (total : Nat) : List Component → Except Fault Nat
  | [] => .ok total
  | c :: cs => do
    let total ← c.addTo total
    sum total cs

/-- The nanoseconds of a text behind the sign: a zero or at least one component. -/
def readMagnitude (cs : List Char) : Except Fault Nat :=
  if cs = ['0'] then .ok 0
  else
    match readComponents? cs with
    | none | some [] => .error .refused
    | some parts => sum 0 parts

/-- Reads a duration. Only nothing at all may have a minus sign, and the nanoseconds have to fit in
64 bits. -/
def read (text : String) : Except ReadError Duration :=
  let (negative, cs) := Decimal.splitSign text.toList
  match readMagnitude cs with
  | .error .refused => .error (.invalid text)
  | .error fault => .error (.broken fault)
  | .ok n =>
    if negative && 0 < n then .error (.negative text)
    else if h : n < 18_446_744_073_709_551_616 then .ok ⟨n, by omega⟩
    else .error (.invalid text)

end HostLisp.Duration
