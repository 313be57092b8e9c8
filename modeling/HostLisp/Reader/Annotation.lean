import HostLisp.Reader.Token
import HostLisp.Text.Alphanumeric
import HostLisp.Ty

/-!
# Annotations

A name may be followed by `::`, a type, and `?` if nil is allowed.  Types are the built-in keywords,
`map[key]value`, `[]element`, and names that the dialect knows.  After `::` nothing but a type will
do, so all failures are for good and the type parser answers with plain faults.  It hands over the
rest of the text with the proof that it is shorter, which is why it ends.
-/

namespace HostLisp.Reader

open Parsing

/-- What a name in an annotation stands for. -/
inductive NamedType where
  | known (ty : Ty)
  /-- The name is bound, but to no type. -/
  | other
  | unknown

/-- A dialect of source text: whether names may have members, and which types have names. -/
structure Dialect where
  members : Bool
  named : String → NamedType

/-- The text left over by a parser that takes something. -/
abbrev Shorter (cs : List Char) := { rest : List Char // rest.length < cs.length }

/-- A character of the name of a type. -/
def isTypeNameChar (c : Char) : Bool := Text.isAlphanumeric c || c = '_' || c = '-'

/-- The text behind a word, if it starts with it. -/
def afterWord? (w cs : List Char) : Option (Shorter cs) :=
  if h : w ≠ [] ∧ w <+: cs then
    some ⟨cs.drop w.length, by
      have := List.length_pos_iff.2 h.1
      have := h.2.length_le
      rw [List.length_drop]
      omega⟩
  else none

/-- A built-in type in front of a text: the first of the keywords that a stop or the end follows. -/
def keywordType? (cs : List Char) : Option (Ty × Shorter cs) :=
  Kind.keywords.findSome? fun (w, kind) =>
    match afterWord? w.toList cs with
    | some rest => if rest.1.head?.all isTypeStop then some ({ kind }, rest) else none
    | none => none

/-- The type behind the name in front of a text. -/
def namedType (d : Dialect) (cs : List Char) : Except Fault (Ty × Shorter cs) :=
  match h : cs.takeWhile isTypeNameChar with
  | [] => .error (Fault.unexpectedAt cs)
  | c :: name =>
    have hlt : (cs.dropWhile isTypeNameChar).length < cs.length := by
      have := congrArg List.length (List.takeWhile_append_dropWhile (p := isTypeNameChar) (l := cs))
      rw [List.length_append, h, List.length_cons] at this
      omega
    match d.named (String.ofList (c :: name)) with
    | .known ty => .ok (ty, ⟨cs.dropWhile isTypeNameChar, hlt⟩)
    | .other => .error ⟨.notAType (c :: name), cs⟩
    | .unknown => .error ⟨.typeNotFound (c :: name), cs⟩

/-- A type in front of a text. -/
def typeExpr (d : Dialect) (cs : List Char) : Except Fault (Ty × Shorter cs) :=
  match keywordType? cs, afterWord? ['m', 'a', 'p', '['] cs, afterWord? ['[', ']'] cs with
  | some found, _, _ => .ok found
  | none, some ⟨ks, hks⟩, _ =>
    match typeExpr d ks with
    | .error f => .error f
    | .ok (key, ⟨rest, hrest⟩) =>
      match afterWord? [']'] rest with
      | none => .error (Fault.unexpectedAt rest)
      | some ⟨vs, hvs⟩ =>
        match typeExpr d vs with
        | .error f => .error f
        | .ok (value, ⟨rest, hvalue⟩) => .ok (.mapOf key value, ⟨rest, by omega⟩)
  | none, none, some ⟨es, hes⟩ =>
    match typeExpr d es with
    | .error f => .error f
    | .ok (element, ⟨rest, helement⟩) => .ok (.sliceOf element, ⟨rest, by omega⟩)
  | none, none, none => namedType d cs
termination_by cs.length

/-- An optional annotation. -/
def annotation (d : Dialect) : Reads (Option Ty) := fun cs =>
  match cs with
  | ':' :: ':' :: ts =>
    match typeExpr d ts with
    | .error f => .error (.cut f)
    | .ok (ty, rest) =>
      match rest.1 with
      | '?' :: rest => .ok (some ty.orNil, rest)
      | rest => .ok (some ty, rest)
  | _ => .ok (none, cs)

end HostLisp.Reader
