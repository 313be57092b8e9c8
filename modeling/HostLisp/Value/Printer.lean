import HostLisp.Decimal.Layout
import HostLisp.Text.Escaped
import HostLisp.Value

/-!
# Writing values

Data is written as source text that reads back as the same data; what has no literal is written
between `#<` and `>`.  A closure's parameters and body can be written as the form that makes it.
-/

namespace HostLisp

/-- Floats from `1e-4` up to `1e16` are written positionally; others always with a point, so that
the text reads back as a float. -/
def Value.floatLayout : Decimal.Layout := ⟨-3, 16, true⟩

/-- Texts with a blank between each two. -/
def spaced : List (List Char) → List Char
  | [] => []
  | [t] => t
  | t :: ts => t ++ ' ' :: spaced ts

/-- A name, and its type unless that is plain `any`. -/
def Atom.chars (a : Atom) : List Char :=
  if a.ty = Ty.any then a.name.toList else a.name.toList ++ ':' :: ':' :: a.ty.chars

namespace Signature

/-- The formal parameters in order, the marker last. -/
def formals (s : Signature) : List Atom :=
  match s.rest with
  | none => s.fixed
  | some ty => s.fixed ++ [⟨variadicMarker, ty⟩]

/-- The parameter list as source writes it. -/
def chars (s : Signature) : List Char := '(' :: (spaced (s.formals.map Atom.chars) ++ [')'])

end Signature

namespace Value

/-- A name between `#<` and `>`. -/
def bracketed (cs : List Char) : List Char := '#' :: '<' :: (cs ++ ['>'])

mutual
/-- A value as text. -/
def chars : Value → List Char
  | .int n => Decimal.signed n.toInt
  | .float x => floatLayout.chars x
  | .bool b => if b then ['t', 'r', 'u', 'e'] else ['f', 'a', 'l', 's', 'e']
  | .char c => '\'' :: (Text.escaped '\'' c ++ ['\''])
  | .string s => '"' :: (s.toList.flatMap (Text.escaped '"') ++ ['"'])
  | .nil => ['n', 'i', 'l']
  | .atom a => a.chars
  | .list items => '(' :: (charsOfItems items ++ [')'])
  | .quote inner => '\'' :: chars inner
  | .lambda .. => bracketed "lambda".toList
  | .deferred _ => bracketed "task".toList
  | .native callable => bracketed ("native:".toList ++ callable.id.toList)
  | .time t => bracketed ("time:".toList ++ t.chars)
  | .duration d => bracketed ("duration:".toList ++ d.chars)
  | .host object => bracketed object.typeName.toList
/-- Values as text, with a blank between each two. -/
def charsOfItems : List Value → List Char
  | [] => []
  | v :: vs => chars v ++ charsOfRest vs
/-- Values as text, each behind a blank. -/
def charsOfRest : List Value → List Char
  | [] => []
  | v :: vs => ' ' :: (chars v ++ charsOfRest vs)
end

/-- The text of a value. -/
def text (v : Value) : String := String.ofList v.chars

/-- The text of a row of values, with a blank between each two. -/
def textOfItems (vs : List Value) : String := String.ofList (charsOfItems vs)

end Value

/-- The text of a closure: the form that makes it. -/
def Lambda.text (closure : Lambda) : String :=
  String.ofList
    ("(lambda ".toList ++ closure.signature.chars ++ Value.charsOfRest closure.body ++ [')'])

/-- The text of a signature. -/
def Signature.text (s : Signature) : String := String.ofList s.chars

end HostLisp
