import HostLisp.Text.Quoted
import HostLisp.Value.Printer

/-!
# Inspecting values

For a developer a value is written with the name of its kind and its parts in parentheses.  Strings
and characters are quoted so that nothing in them stays hidden.
-/

namespace HostLisp.Value

/-- Floats as in source, but a lone digit before a power of ten stands without a point. -/
def inspectionLayout : Decimal.Layout := { floatLayout with dottedMantissa := false }

/-- The name of a kind and a part. -/
def labelled (label : String) (part : List Char) : List Char :=
  label.toList ++ '(' :: (part ++ [')'])

/-- Seconds and nanoseconds of an instant, by field. -/
def inspectInstant (t : Instant) : List Char :=
  "SystemTime \x7b tv_sec: ".toList ++ Decimal.signed t.seconds ++ ", tv_nsec: ".toList ++
    Decimal.digits t.subsecond ++ " \x7d".toList

mutual
/-- A value as a developer sees it. -/
def inspectChars : Value → List Char
  | .int n => labelled "Int" (Decimal.signed n.toInt)
  | .float x => labelled "Float" (inspectionLayout.chars x)
  | .bool b => labelled "Bool" (chars (.bool b))
  | .char c => labelled "Char" (Text.quoted '\'' [c])
  | .string s => labelled "String" (Text.quoted '"' s.toList)
  | .nil => "Nil".toList
  | .atom a => labelled "Atom" a.chars
  | .list items => labelled "List" (inspectItems items)
  | .quote inner => labelled "Quote" (inspectChars inner)
  | .lambda _ closure => labelled "Lambda" closure.signature.chars
  | .deferred _ => labelled "Deferred" []
  | .native callable => labelled "Native" callable.id.toList
  | .time t => labelled "Time" (inspectInstant t)
  | .duration d => labelled "Duration" d.chars
  | .host object => labelled "Host" (labelled "Thing" object.typeName.toList)
/-- Values as a developer sees them, with a comma between each two. -/
def inspectItems : List Value → List Char
  | [] => []
  | v :: vs => inspectChars v ++ inspectRest vs
/-- Values as a developer sees them, each behind a comma. -/
def inspectRest : List Value → List Char
  | [] => []
  | v :: vs => ',' :: ' ' :: (inspectChars v ++ inspectRest vs)
end

/-- The inspection text of a value. -/
def inspect (v : Value) : String := String.ofList v.inspectChars

end HostLisp.Value
