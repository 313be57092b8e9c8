import HostLisp.Parsing.Combinators

/-!
# Lexemes

A lexeme scans characters at the front of a text.  It may find what it looks for, stop at a place
where the text does not fit, stop there for good, or ask for more text than there is.  `lex` makes a
parser of it: only a scan that stops for good is a cut.
-/

namespace HostLisp.Parsing

/-- The outcome of scanning a text. -/
inductive Scan (α : Type) where
  | found (a : α) (rest : List Char)
  /-- The text ends too early to tell. -/
  | incomplete
  /-- The text does not fit from `stop` on. -/
  | mismatch (stop : List Char)
  /-- The text is broken from `stop` on. -/
  | broken (stop : List Char)
deriving DecidableEq

/-- A scanner of texts. -/
abbrev Lexeme (α : Type) := List Char → Scan α

/-- The part of `text` in front of its end `rest`. -/
def upTo (text rest : List Char) : List Char := text.take (text.length - rest.length)

namespace Lexeme

variable {α β : Type}

/-- One or more ASCII digits. -/
def digits : Lexeme (List Char) := fun cs =>
  if (cs.takeWhile Char.isDigit).isEmpty then .mismatch cs
  else .found (cs.takeWhile Char.isDigit) (cs.dropWhile Char.isDigit)

/-- One or more ASCII digits of a text that may go on: if they reach its end, more is needed. -/
def digitsStreaming : Lexeme (List Char) := fun cs =>
  if (cs.dropWhile Char.isDigit).isEmpty then .incomplete else digits cs

/-- One given character. -/
def char (c : Char) : Lexeme Char := fun cs =>
  match cs with
  | [] => .mismatch cs
  | d :: rest => if d = c then .found c rest else .mismatch cs

/-- A given word. -/
def word (w : List Char) : Lexeme (List Char) := fun cs =>
  if w.isPrefixOf cs then .found w (cs.drop w.length) else .mismatch cs

/-- Two lexemes in order. -/
def andThen (first : Lexeme α) (second : Lexeme β) : Lexeme (α × β) := fun cs =>
  match first cs with
  | .found a rest =>
    match second rest with
    | .found b rest => .found (a, b) rest
    | .incomplete => .incomplete
    | .mismatch stop => .mismatch stop
    | .broken stop => .broken stop
  | .incomplete => .incomplete
  | .mismatch stop => .mismatch stop
  | .broken stop => .broken stop

/-- The text that a lexeme covers. -/
def recognized (l : Lexeme α) : Lexeme (List Char) := fun cs =>
  match l cs with
  | .found _ rest => .found (upTo cs rest) rest
  | .incomplete => .incomplete
  | .mismatch stop => .mismatch stop
  | .broken stop => .broken stop

/-- A lexeme whose mismatch is for good. -/
def fatal (l : Lexeme α) : Lexeme α := fun cs =>
  match l cs with
  | .mismatch stop => .broken stop
  | outcome => outcome

end Lexeme

/-- The parser of a lexeme; errors stand where scanning stopped. -/
def lex {ε α : Type} [InputError (List Char) ε] (l : Lexeme α) : Parser (List Char) ε α := fun cs =>
  match l cs with
  | .found a rest => .ok (a, rest)
  | .incomplete => .error (.backtrack (InputError.endOfInput cs))
  | .mismatch stop => .error (.backtrack (InputError.unexpected stop))
  | .broken stop => .error (.cut (InputError.unexpected stop))

end HostLisp.Parsing
