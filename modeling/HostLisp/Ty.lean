/-!
# Type descriptors

An annotation names a kind of values and says whether nil is allowed as well.  Kinds are the eleven
built-in ones, types of the host by their name, lists with elements of one type, and maps; no value
of the language is a map or a dictionary.
-/

namespace HostLisp

mutual
/-- A kind of values, with nil or without. -/
structure Ty where
  kind : Kind
  optional : Bool := false
/-- A kind of values. -/
inductive Kind where
  | any | bool | int | float | string | time | duration | atom | list | quote | dict
  /-- Objects of the host whose type has this name. -/
  | alias (name : String)
  /-- Lists whose elements all have one type. -/
  | slice (element : Ty)
  | map (key value : Ty)
end

deriving instance DecidableEq for Ty, Kind

instance : Inhabited Ty := ⟨⟨.any, false⟩⟩

namespace Kind

/-- The built-in kinds by their keywords, in the order in which they are tried. -/
def keywords : List (String × Kind) :=
  [("bool", .bool), ("float", .float), ("int", .int), ("string", .string), ("time", .time),
    ("duration", .duration), ("any", .any), ("atom", .atom), ("list", .list), ("quote", .quote),
    ("dict", .dict)]

end Kind

namespace Ty

/-- The type of a name without an annotation: anything but nil. -/
def any : Ty := { kind := .any }

/-- The same type, nil allowed. -/
def orNil (ty : Ty) : Ty := { ty with optional := true }

/-- Lists of `element`s. -/
def sliceOf (element : Ty) : Ty := { kind := .slice element }

/-- Maps from `key`s to `value`s. -/
def mapOf (key value : Ty) : Ty := { kind := .map key value }

/-- The built-in type with this keyword. -/
def builtin? (keyword : String) : Option Ty :=
  (Kind.keywords.lookup keyword).map fun kind => { kind }

end Ty

/-! ### Text -/

mutual
/-- A type as an annotation writes it. -/
def Ty.chars : Ty → List Char
  | ⟨kind, optional⟩ => kind.chars ++ (if optional then ['?'] else [])
/-- A kind as an annotation writes it. -/
def Kind.chars : Kind → List Char
  | .any => ['a', 'n', 'y']
  | .bool => ['b', 'o', 'o', 'l']
  | .int => ['i', 'n', 't']
  | .float => ['f', 'l', 'o', 'a', 't']
  | .string => ['s', 't', 'r', 'i', 'n', 'g']
  | .time => ['t', 'i', 'm', 'e']
  | .duration => ['d', 'u', 'r', 'a', 't', 'i', 'o', 'n']
  | .atom => ['a', 't', 'o', 'm']
  | .list => ['l', 'i', 's', 't']
  | .quote => ['q', 'u', 'o', 't', 'e']
  | .dict => ['d', 'i', 'c', 't']
  | .alias name => name.toList
  | .slice element => '[' :: ']' :: element.chars
  | .map key value => 'm' :: 'a' :: 'p' :: '[' :: (key.chars ++ ']' :: value.chars)
end

/-- The text of a type. -/
def Ty.text (ty : Ty) : String := String.ofList ty.chars

end HostLisp
