import HostLisp.Parsing.Input

/-!
# Backtracking parsers

A parser reads from the front of an input and gives a result and the input left over, or fails.
Failures come in two strengths: after a `backtrack` the caller may try something else from where it
was, while a `cut` says that the input was recognised and is broken, and ends the whole parse.

`many` repeats a parser as long as it succeeds and takes something off the input, so it ends after
at most as many rounds as there is input left.
-/

namespace HostLisp.Parsing

/-- A failure the caller may recover from, or one it may not. -/
inductive Fail (ε : Type) where
  | backtrack (e : ε)
  | cut (e : ε)
deriving DecidableEq

namespace Fail

variable {ε ε' : Type}

/-- The error itself. -/
def error : Fail ε → ε
  | backtrack e | cut e => e

/-- Whether the failure ends the whole parse. -/
def isCut : Fail ε → Bool
  | backtrack _ => false
  | cut _ => true

/-- The same strength of failure with another error. -/
def map (f : ε → ε') : Fail ε → Fail ε'
  | backtrack e => backtrack (f e)
  | cut e => cut (f e)

end Fail

/-- Parsers of inputs `ι` with errors `ε` and results `α`. -/
abbrev Parser (ι ε α : Type) := StateT ι (Except (Fail ε)) α

section
variable {ι τ ε α β γ : Type}

/-- Fails, leaving the caller a choice. -/
def backtrack (e : ε) : Parser ι ε α := fun _ => .error (.backtrack e)

/-! ### Single items -/

section
variable [Input ι τ] [InputError ι ε]

/-- Any item. -/
def anyItem : Parser ι ε τ := fun i =>
  match Input.next? i with
  | some result => .ok result
  | none => .error (.backtrack (InputError.endOfInput i))

/-- An item with a property. -/
def satisfy (p : τ → Bool) : Parser ι ε τ := fun i =>
  match Input.next? i with
  | some (t, rest) =>
    if p t then .ok (t, rest) else .error (.backtrack (InputError.unexpected i))
  | none => .error (.backtrack (InputError.endOfInput i))

/-- An item that converts; otherwise the conversion's own error, leaving the caller a choice. -/
def satisfyMap (f : τ → Except ε α) : Parser ι ε α := fun i =>
  match Input.next? i with
  | some (t, rest) =>
    match f t with
    | .ok a => .ok (a, rest)
    | .error e => .error (.backtrack e)
  | none => .error (.backtrack (InputError.endOfInput i))

/-- The end of the input. -/
def eof : Parser ι ε Unit := fun i =>
  if Input.remaining i = 0 then .ok ((), i) else .error (.backtrack (InputError.trailing i))

end

/-! ### One after the other -/

/-- Two parsers in order, both results. -/
def pair (p : Parser ι ε α) (q : Parser ι ε β) : Parser ι ε (α × β) := do
  let a ← p
  let b ← q
  return (a, b)

/-- Two parsers in order, the second result. -/
def preceded (p : Parser ι ε α) (q : Parser ι ε β) : Parser ι ε β := do
  let _ ← p
  q

/-- Two parsers in order, the first result. -/
def terminated (p : Parser ι ε α) (q : Parser ι ε β) : Parser ι ε α := do
  let a ← p
  let _ ← q
  return a

/-- Three parsers in order, the middle result. -/
def between (left : Parser ι ε α) (p : Parser ι ε β) (right : Parser ι ε γ) : Parser ι ε β := do
  let _ ← left
  let b ← p
  let _ ← right
  return b

/-- All parsers in order, all results. -/
def inOrder : List (Parser ι ε α) → Parser ι ε (List α)
  | [] => return []
  | p :: ps => do
    let a ← p
    let as ← inOrder ps
    return a :: as

/-! ### Alternatives -/

/-- The first parser, or the second from the same place if the first one backtracks. -/
def orElse (p q : Parser ι ε α) : Parser ι ε α := fun i =>
  match p i with
  | .error (.backtrack _) => q i
  | outcome => outcome

/-- The first of several parsers that does not backtrack; if all do, the last one's failure. -/
def choice (p : Parser ι ε α) : List (Parser ι ε α) → Parser ι ε α
  | [] => p
  | q :: qs => orElse p (choice q qs)

/-- A parser, or nothing if it backtracks. -/
def opt (p : Parser ι ε α) : Parser ι ε (Option α) := fun i =>
  match p i with
  | .ok (a, rest) => .ok (some a, rest)
  | .error (.backtrack _) => .ok (none, i)
  | .error (.cut e) => .error (.cut e)

/-- From here on there is no way back: every failure of the parser is a cut. -/
def cut (p : Parser ι ε α) : Parser ι ε α := fun i =>
  match p i with
  | .error (.backtrack e) => .error (.cut e)
  | outcome => outcome

/-! ### Repetition -/

section
variable [Input ι τ]

/-- Zero or more times, up to the first failure that backtracks or the first success that takes
nothing off the input (which still counts). -/
def many (p : Parser ι ε α) (i : ι) : Except (Fail ε) (List α × ι) :=
  match p i with
  | .error (.backtrack _) => .ok ([], i)
  | .error (.cut e) => .error (.cut e)
  | .ok (a, rest) =>
    if Input.remaining rest < Input.remaining i then
      match many p rest with
      | .ok (as, rest) => .ok (a :: as, rest)
      | .error e => .error e
    else .ok ([a], rest)
termination_by Input.remaining i

/-- One or more times. -/
def many1 (p : Parser ι ε α) : Parser ι ε (List α) := do
  let a ← p
  let as ← (many p : Parser ι ε (List α))
  return a :: as

/-- Items up to an end, which is looked for first.  An item that fails reports its own failure; one
that takes nothing off the input would come up again for ever and is not accepted. -/
def manyTill [InputError ι ε] (p : Parser ι ε α) (stop : Parser ι ε β) (i : ι) :
    Except (Fail ε) (List α × ι) :=
  match stop i with
  | .ok (_, rest) => .ok ([], rest)
  | .error (.cut e) => .error (.cut e)
  | .error (.backtrack _) =>
    match p i with
    | .error e => .error e
    | .ok (a, rest) =>
      if Input.remaining rest < Input.remaining i then
        match manyTill p stop rest with
        | .ok (as, rest) => .ok (a :: as, rest)
        | .error e => .error e
      else .error (.backtrack (InputError.unexpected i))
termination_by Input.remaining i

end

end

end HostLisp.Parsing
