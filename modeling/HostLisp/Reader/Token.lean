import HostLisp.Parsing.Lexeme
import HostLisp.Reader.Error
import HostLisp.Text.Blank

/-!
# Tokens

The characters and lexemes that source text is made of.  A number or keyword ends at a boundary: the
end of the text, white space, or a character that opens or closes something.  Between nodes only
blanks, tabs, carriage returns and line feeds may stand.
-/

namespace HostLisp.Reader

open Parsing

/-- Parsers of source text. -/
abbrev Reads (α : Type) := Parser (List Char) Fault α

/-! ### Classes of characters -/

/-- White space that may stand between nodes. -/
def isSpacing (c : Char) : Bool := c = ' ' || c = '\t' || c = '\r' || c = '\n'

/-- A character of a name. -/
def isNameChar (c : Char) : Bool :=
  !(Text.isBlank c || ['\'', '[', ']', '(', ')', '"', ':', '.'].contains c)

/-- A character that ends a number or a keyword. -/
def isBoundary (c : Char) : Bool :=
  Text.isBlank c || ['(', ')', '[', ']', '\'', '"'].contains c

/-- A character that ends the keyword of a type. -/
def isTypeStop (c : Char) : Bool :=
  Text.isBlank c ||
    [':', '.', '(', ')', '[', ']', '\x7b', '\x7d', '?', '\'', '"'].contains c

/-! ### Parsers -/

/-- Skips the white space between nodes. -/
def spacing : Reads Unit := fun cs => .ok ((), cs.dropWhile isSpacing)

/-- One given character. -/
def char (c : Char) : Reads Char := satisfy (· = c)

/-- Succeeds at the end of the text or in front of a character with the property `p`; takes
nothing. -/
def ahead (p : Char → Bool) : Reads Unit := fun cs =>
  match cs with
  | [] => .ok ((), cs)
  | c :: _ => if p c then .ok ((), cs) else .error (.backtrack (Fault.unexpectedAt cs))

/-- A word followed by a boundary. -/
def keyword (w : List Char) : Reads (List Char) :=
  terminated (lex (Lexeme.word w)) (ahead isBoundary)

/-- A run of name characters. -/
def nameSegment : Reads (List Char) := fun cs =>
  if (cs.takeWhile isNameChar).isEmpty then .error (.backtrack (Fault.unexpectedAt cs))
  else .ok (cs.takeWhile isNameChar, cs.dropWhile isNameChar)

/-! ### Numbers -/

/-- The text behind an optional sign. -/
def dropSign : List Char → List Char
  | '+' :: cs => cs
  | '-' :: cs => cs
  | cs => cs

/-- The text behind an optional power of ten. -/
def dropExponent (cs : List Char) : List Char :=
  match cs with
  | [] => cs
  | c :: r =>
    let ds := dropSign r
    if (c = 'e' ∨ c = 'E') ∧ (ds.takeWhile Char.isDigit).isEmpty = false then
      ds.dropWhile Char.isDigit
    else cs

/-- An integer: an optional sign and digits. -/
def intLexeme : Lexeme (List Char) := fun cs =>
  let ds := dropSign cs
  if (ds.takeWhile Char.isDigit).isEmpty then .mismatch ds
  else .found (upTo cs (ds.dropWhile Char.isDigit)) (ds.dropWhile Char.isDigit)

/-- A float: an integer, a point and digits, and an optional power of ten. -/
def floatLexeme : Lexeme (List Char) := fun cs =>
  let ds := dropSign cs
  if (ds.takeWhile Char.isDigit).isEmpty then .mismatch ds
  else
    match ds.dropWhile Char.isDigit with
    | '.' :: fs =>
      if (fs.takeWhile Char.isDigit).isEmpty then .mismatch fs
      else
        let rest := dropExponent (fs.dropWhile Char.isDigit)
        .found (upTo cs rest) rest
    | stop => .mismatch stop

end HostLisp.Reader
