import HostLisp.Decimal.Reading
import HostLisp.Reader.Token
import HostLisp.Text.Escaped
import HostLisp.Value

/-!
# Literals

Strings, characters, numbers, booleans and nil.  A string that has begun and an escape that is not
known are errors for good; a quote mark that opens no character literal may still quote what
follows.
-/

namespace HostLisp.Reader

open Parsing

/-- The integer that a sign and digits stand for. -/
def intValue (literal : List Char) : Int :=
  let (negative, ds) := Decimal.splitSign literal
  if negative then -(Decimal.value ds : Int) else Decimal.value ds

/-- A 64-bit integer literal; one out of range is an error for good. -/
def int : Reads Int64 := fun cs => do
  let (literal, rest) ← (terminated (lex intLexeme) (ahead isBoundary) : Reads (List Char)) cs
  let n := intValue literal
  if -9_223_372_036_854_775_808 ≤ n ∧ n < 9_223_372_036_854_775_808 then .ok (Int64.ofInt n, rest)
  else .error (.cut ⟨.integerRange literal, cs⟩)

/-- A float literal. -/
def float : Reads Float := do
  let literal ← terminated (lex floatLexeme) (ahead isBoundary)
  return (Decimal.readFloat? literal).getD 0

/-- The characters of a string up to its closing quote.  `start` is where the string began. -/
def stringBody (start : List Char) : List Char → Except (Fail Fault) (List Char × List Char)
  | [] => .error (.cut ⟨.unterminatedString, start⟩)
  | ['\\'] => .error (.cut ⟨.endOfInput, []⟩)
  | '\\' :: e :: cs =>
    match Text.unescape? e with
    | none => .error (.cut ⟨.unknownEscape e, '\\' :: e :: cs⟩)
    | some c => (stringBody start cs).map fun (s, rest) => (c :: s, rest)
  | c :: cs =>
    if c = '"' then .ok ([], cs)
    else (stringBody start cs).map fun (s, rest) => (c :: s, rest)

/-- A string literal. -/
def string : Reads String := fun cs => do
  let (_, body) ← char '"' cs
  let (s, rest) ← stringBody cs body
  .ok (String.ofList s, rest)

/-- A backslash and the character it stands for. -/
def escape : Reads Char := fun cs => do
  let (_, rest) ← char '\\' cs
  match rest with
  | [] => .error (.cut ⟨.endOfInput, rest⟩)
  | e :: after =>
    match Text.unescape? e with
    | none => .error (.cut ⟨.unknownEscape e, cs⟩)
    | some c => .ok (c, after)

/-- A character literal: one character or an escape between quote marks. -/
def character : Reads Char :=
  between (char '\'') (orElse escape (satisfy (· ≠ '\''))) (char '\'')

/-- A boolean. -/
def bool : Reads Bool :=
  orElse (do let _ ← keyword ['t', 'r', 'u', 'e']; return true)
    (do let _ ← keyword ['f', 'a', 'l', 's', 'e']; return false)

/-- The absent value. -/
def nil : Reads Unit := do
  let _ ← keyword ['n', 'i', 'l']

end HostLisp.Reader
