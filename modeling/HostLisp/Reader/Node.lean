import HostLisp.Reader.Annotation
import HostLisp.Reader.Literal

/-!
# Nodes

The grammar of source text.  A node is a literal, a name, a list or a quote; a quote mark stands in
front of a name or a list.  Lists and quotes nest at most `maxReadDepth` deep: `node d n` reads a
node where `n` more levels are left, so the grammar is a recursion on `n`.
-/

namespace HostLisp.Reader

open Parsing

/-- The name of an atom: the variadic marker, or a segment, in a dialect with members followed by
further segments behind points. -/
def name (d : Dialect) : Reads (List Char) :=
  orElse (lex (Lexeme.word ['.', '.', '.'])) do
    let first ← nameSegment
    if d.members then
      let further ← (many (preceded (char '.') nameSegment) : Reads (List (List Char)))
      return first ++ further.flatMap ('.' :: ·)
    else return first

/-- An atom: a name that is not a number, and an optional annotation. -/
def atom (d : Dialect) : Reads Atom := fun cs => do
  let (n, rest) ← name d cs
  if n.all Char.isDigit then .error (.cut ⟨.integerName n, cs⟩)
  else
    let (ty, rest) ← annotation d rest
    .ok (⟨String.ofList n, ty.getD Ty.any⟩, rest)

/-- A list of nodes, each followed by optional white space. -/
def list (element : Reads Value) : Reads (List Value) :=
  between (preceded (char '(') spacing) (many (terminated element spacing)) (cut (char ')'))

/-- What a quote mark may stand in front of. -/
def quoted (d : Dialect) (element : Reads Value) : Reads Value :=
  orElse (.atom <$> atom d) (.list <$> list element)

/-- A node whose lists have `element`s and whose quoted lists have `deeper` ones. -/
def nodeOf (d : Dialect) (element deeper : Reads Value) : Reads Value :=
  choice (.string <$> string)
    [.float <$> float, .int <$> int, .char <$> character, .bool <$> bool,
      (fun _ => .nil) <$> nil, .atom <$> atom d, .list <$> list element,
      .quote <$> preceded (char '\'') (cut (quoted d deeper))]

/-- A node with `n` levels of nesting left. -/
def node (d : Dialect) : Nat → Reads Value
  | 0, cs => .error (.cut ⟨.tooDeep, cs⟩)
  | 1, cs => nodeOf d (node d 0) (node d 0) cs
  | n + 2, cs => nodeOf d (node d (n + 1)) (node d n) cs

/-- A node of a text. -/
def topNode (d : Dialect) : Reads Value := node d maxReadDepth

end HostLisp.Reader
