import HostLisp.Decimal.Reading
import HostLisp.Text.Quoted
import HostLisp.Time.Calendar
import HostLisp.Time.Instant

/-!
# Reading timestamps

A timestamp is `yyyy-mm-dd`, a `T`, `t` or blank, `hh:mm:ss`, an optional fraction of a second, and
`Z`, `z` or an offset `±hh:mm`.  The date has to exist and the clock to be in range; of the fraction
the first nine digits count.  The offset is subtracted: it says how far the clock shown is ahead.
-/

namespace HostLisp

namespace Timestamp

/-- What a timestamp says. -/
structure Stamp where
  year : Nat
  month : Nat
  day : Nat
  hour : Nat
  minute : Nat
  second : Nat
  /-- The digits of the fraction of a second. -/
  fraction : List Char
  /-- How many seconds the clock shown is ahead. -/
  offset : Int
deriving DecidableEq

/-! ### Texts -/

/-- Exactly `n` digits in front of a text. -/
def fixed? (n : Nat) (cs : List Char) : Option (Nat × List Char) :=
  let ds := cs.take n
  if ds.length = n ∧ ds.all Char.isDigit then some (Decimal.value ds, cs.drop n) else none

/-- One of the characters `allowed` in front of a text, and what follows it. -/
def oneOf? (allowed : List Char) : List Char → Option (Char × List Char)
  | [] => none
  | c :: cs => if c ∈ allowed then some (c, cs) else none

/-- The digits of an optional fraction, and what follows it. -/
def readFraction : List Char → List Char × List Char
  | '.' :: cs =>
    if (cs.takeWhile Char.isDigit).isEmpty then ([], '.' :: cs)
    else (cs.takeWhile Char.isDigit, cs.dropWhile Char.isDigit)
  | cs => ([], cs)

/-- A sign, hours and minutes in front of a text as seconds. -/
def readOffset? (cs : List Char) : Option (Int × List Char) := do
  let (sign, cs) ← oneOf? ['+', '-'] cs
  let (hours, cs) ← fixed? 2 cs
  let (_, cs) ← oneOf? [':'] cs
  let (minutes, cs) ← fixed? 2 cs
  let seconds : Int := hours * 3600 + minutes * 60
  if hours ≤ 23 ∧ minutes ≤ 59 then return (if sign = '-' then -seconds else seconds, cs)
  else none

/-- The end of a timestamp: `Z`, or how many seconds the clock shown is ahead. -/
def readZone? (cs : List Char) : Option (Int × List Char) :=
  match oneOf? ['Z', 'z'] cs with
  | some (_, cs) => some (0, cs)
  | none => readOffset? cs

/-- Three numbers with a separator between them: `width` digits, then two and two. -/
def readThree? (width : Nat) (separator : Char) (cs : List Char) :
    Option ((Nat × Nat × Nat) × List Char) := do
  let (a, cs) ← fixed? width cs
  let (_, cs) ← oneOf? [separator] cs
  let (b, cs) ← fixed? 2 cs
  let (_, cs) ← oneOf? [separator] cs
  let (c, cs) ← fixed? 2 cs
  return ((a, b, c), cs)

/-- A timestamp in front of a text; its numbers may be out of range. -/
def readStamp? (cs : List Char) : Option (Stamp × List Char) := do
  let ((year, month, day), cs) ← readThree? 4 '-' cs
  let (_, cs) ← oneOf? ['T', 't', ' '] cs
  let ((hour, minute, second), cs) ← readThree? 2 ':' cs
  let (fraction, cs) := readFraction cs
  let (offset, cs) ← readZone? cs
  return (⟨year, month, day, hour, minute, second, fraction, offset⟩, cs)

/-! ### Instants -/

namespace Stamp

/-- The date exists and the clock shows a time of the day. -/
def inRange (s : Stamp) : Bool :=
  Calendar.isDate s.year s.month s.day && s.hour ≤ 23 && s.minute ≤ 59 && s.second ≤ 59

/-- The whole seconds from 1970. -/
def seconds (s : Stamp) : Int :=
  Calendar.daysSinceEpoch s.year s.month s.day * 86_400 +
    (s.hour * 3600 + s.minute * 60 + s.second : Nat) - s.offset

/-- The nanoseconds that the fraction stands for. -/
def fractionNanos (s : Stamp) : Nat :=
  let ds := s.fraction.take 9
  if ds.isEmpty then 0 else Decimal.value ds * Nat.pow 10 (9 - ds.length)

/-- The nanoseconds from 1970. -/
def nanos (s : Stamp) : Int := s.seconds * 1_000_000_000 + s.fractionNanos

end Stamp

/-- The instant at a signed distance from 1970, which has to be that of a duration. -/
def instantAt? (nanos : Int) : Option Instant := do
  let distance ← Duration.ofNanos? nanos.natAbs
  if 0 ≤ nanos then Instant.after? distance else Instant.before? distance

/-- The instant that a whole text names. -/
def instant? (cs : List Char) : Option Instant :=
  match readStamp? cs with
  | some (s, []) => if s.inRange then instantAt? s.nanos else none
  | _ => none

/-- Reads a timestamp; the error is its message. -/
def read (text : String) : Except String Instant :=
  match instant? text.toList with
  | some t => .ok t
  | none => .error ("invalid time " ++ Text.quotedString text)

end Timestamp

end HostLisp
