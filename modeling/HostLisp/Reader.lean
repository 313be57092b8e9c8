import HostLisp.Reader.Node

/-!
# Reading source text

A text is read as one node with the rest of the text (`Dialect.read`), as a whole program
(`Dialect.readProgram`), as exactly one node (`readOne`), or as a single number.  The basic dialect
knows the built-in types only; others resolve names of types and read names with members.
-/

namespace HostLisp

open Reader Parsing

namespace Reader

/-- The built-in types, and names without members. -/
def basic : Dialect := ⟨false, fun _ => .unknown⟩

/-- Runs a parser on a text; a fault is located in it. -/
def run {α : Type} (p : Reads α) (text : List Char) : Except ReadError (α × List Char) :=
  match p text with
  | .ok result => .ok result
  | .error failure => .error (failure.error.locate text)

/-- A node and the white space around it. -/
def spacedNode (d : Dialect) : Reads Value := terminated (preceded spacing (topNode d)) spacing

/-- All nodes of a text. -/
def program (d : Dialect) : Reads (List Value) :=
  terminated (preceded spacing (many (terminated (topNode d) spacing))) eof

end Reader

namespace Reader.Dialect

/-- The first node of a text, and the text behind it. -/
def read (d : Dialect) (text : String) : Except ReadError (Value × String) :=
  (run (spacedNode d) text.toList).map fun (v, rest) => (v, String.ofList rest)

/-- All nodes of a text; anything left over is an error. -/
def readProgram (d : Dialect) (text : String) : Except ReadError (List Value) :=
  (run (program d) text.toList).map (·.1)

end Reader.Dialect

/-- A text that is exactly one node in the basic dialect. -/
def readOne (text : String) : Except ReadError Value :=
  match run (spacedNode basic) text.toList with
  | .error e => .error e
  | .ok (v, []) => .ok v
  | .ok (_, rest) => .error (Fault.locate ⟨.trailing, rest⟩ text.toList)

/-- A text that is exactly one integer literal. -/
def readInt (text : String) : Except ReadError Int64 :=
  (run (terminated Reader.int eof) text.toList).map (·.1)

/-- A text that is exactly one float literal. -/
def readFloat (text : String) : Except ReadError Float :=
  (run (terminated Reader.float eof) text.toList).map (·.1)

end HostLisp
