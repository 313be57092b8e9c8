import HostLisp.Parsing.Input

/-!
# Errors of reading

While a text is read an error is a `Fault`: its cause and the unread text where it occurred.  Seen
from outside it is a `ReadError`, which shows that place in its surroundings: some characters before
it and what follows, a hundred characters in all, with marks where the text was cut off.
-/

namespace HostLisp

/-- The kinds of errors of reading. -/
inductive ReadError.Kind where
  | invalid
  /-- The text ends before the expression does. -/
  | incomplete
  | tooDeep
  | trailing
  | unknownType
  /-- A literal that this implementation cannot represent. -/
  | limit
deriving DecidableEq, Repr

/-- An error of reading as a user sees it. -/
structure ReadError where
  kind : ReadError.Kind
  message : String
  /-- The text around the error. -/
  context : Option String := none
  /-- The character found at the error. -/
  found : Option String := none
deriving DecidableEq, Repr

namespace ReadError

/-- Characters shown in front of an error. -/
def leadLength : Nat := 20

/-- Characters shown in all. -/
def contextLength : Nat := 100

/-- What stands for text that is not shown. -/
def ellipsis : List Char := ['[', '.', '.', '.', ']']

/-- Line feeds as escapes, carriage returns left out. -/
def onOneLine (cs : List Char) : List Char :=
  cs.flatMap fun c => if c = '\n' then ['\\', 'n'] else if c = '\r' then [] else [c]

/-- The surroundings of the place between `before` and `after`. -/
def surroundings (before after : List Char) : List Char :=
  let lead := before.drop (before.length - leadLength)
  let shown := lead ++ after
  onOneLine <|
    (if leadLength < before.length then ellipsis else []) ++ shown.take contextLength ++
      (if contextLength < shown.length then ellipsis else [])

/-- An error between `before` and `after`. -/
def between (kind : Kind) (message : String) (before after : List Char) : ReadError where
  kind := kind
  message := message
  context := some (String.ofList (surroundings before after))
  found := after.head?.map fun c => String.ofList [c]

/-- The longest part of a text that fits in `n` bytes, and the rest. -/
def splitBytes : Nat → List Char → List Char × List Char
  | _, [] => ([], [])
  | n, c :: cs =>
    if c.utf8Size ≤ n then
      let (before, after) := splitBytes (n - c.utf8Size) cs
      (c :: before, after)
    else ([], c :: cs)

/-- An error in a text at an offset in bytes; an offset inside a character means its start, one
behind the end means the end. -/
def atOffset (kind : Kind) (message text : String) (offset : Nat) : ReadError :=
  let (before, after) := splitBytes offset text.toList
  between kind message before after

/-- The error in full: what was found and the surroundings on lines of their own. -/
def text (e : ReadError) : String :=
  e.message ++ (e.found.map ("\nFound: " ++ ·)).getD "" ++
    (e.context.map ("\nContext: " ++ ·)).getD ""

end ReadError

/-! ### Faults -/

/-- Why a text cannot be read. -/
inductive Fault.Cause where
  | endOfInput
  | trailing
  | unexpected
  | integerRange (literal : List Char)
  | unknownEscape (c : Char)
  | unterminatedString
  | tooDeep
  /-- A name made of digits only. -/
  | integerName (name : List Char)
  /-- A name in an annotation that is bound, but to no type. -/
  | notAType (name : List Char)
  | typeNotFound (name : List Char)
deriving DecidableEq

/-- A cause and the unread text where it occurred. -/
structure Fault where
  cause : Fault.Cause
  rest : List Char
deriving DecidableEq

/-- The nesting of lists and quotes that is read. -/
def maxReadDepth : Nat := 64

namespace Fault

/-- The kind of error a cause is. -/
def Cause.kind : Cause → ReadError.Kind
  | endOfInput | unterminatedString => .incomplete
  | trailing => .trailing
  | unexpected | unknownEscape _ | integerName _ => .invalid
  | integerRange _ => .limit
  | tooDeep => .tooDeep
  | notAType _ | typeNotFound _ => .unknownType

/-- The wording of a fault. -/
def message (f : Fault) : String :=
  match f.cause with
  | .endOfInput => "Unexpected end of input"
  | .trailing => "Unexpected remaining input: '" ++ String.ofList (f.rest.take 20) ++ "'"
  | .unexpected => "Invalid syntax near '" ++ String.ofList (f.rest.take 10) ++ "'"
  | .integerRange literal => "Integer literal " ++ String.ofList literal ++ " is out of range"
  | .unknownEscape c => "Unknown escape sequence \\" ++ String.ofList [c]
  | .unterminatedString => "Unterminated string literal"
  | .tooDeep => "Expression too deeply nested (max depth: " ++ toString maxReadDepth ++ ")"
  | .integerName name => "Atom name can't be an integer like " ++ String.ofList name
  | .notAType name => String.ofList name ++ " is not a type"
  | .typeNotFound name => "type " ++ String.ofList name ++ " not found"

/-- The fault as an error in the text that was being read. -/
def locate (f : Fault) (text : List Char) : ReadError :=
  ReadError.between f.cause.kind f.message (text.take (text.length - f.rest.length)) f.rest

/-- An item that is not accepted; at the end of the text that means more was needed. -/
def unexpectedAt (rest : List Char) : Fault :=
  ⟨if rest.isEmpty then .endOfInput else .unexpected, rest⟩

instance : Parsing.InputError (List Char) Fault where
  endOfInput rest := ⟨.endOfInput, rest⟩
  trailing rest := ⟨.trailing, rest⟩
  unexpected := unexpectedAt

end Fault

end HostLisp
