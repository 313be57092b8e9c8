import HostLisp.Reader
import HostLisp.Value.Printer

/-!
# Readable values and their layouts

The printer writes one text for a value.  A reader takes many more: white space may stand in front
of and behind every node of a list, and two nodes may touch where the first one ends anyway.  Such a
text is a *layout* of the value, and the printed text is one of them.

Not every value can be read back.  Floats aside, `Value.isReadable` says which ones can: data and
syntax whose names are names and not literals, whose types have keywords, and in which a quote mark
never opens what looks like a character.  How deep a value nests is `Value.nesting`; it is what the
reader's depth limit counts.
-/

namespace HostLisp

open Reader

/-! ### Types and names -/

mutual
/-- The kind is made of keywords only, and nil is nowhere allowed inside it. -/
def Kind.isReadable : Kind → Bool
  | .alias _ => false
  | .slice element => element.isPlain
  | .map key value => key.isPlain && value.isPlain
  | _ => true
/-- The type does not allow nil, and its kind is readable. -/
def Ty.isPlain : Ty → Bool
  | ⟨kind, optional⟩ => !optional && kind.isReadable
end

/-- A sign with digits behind it. -/
def isSignedDigits : List Char → Bool
  | '+' :: ds | '-' :: ds => !ds.isEmpty && ds.all Char.isDigit
  | _ => false

/-- A name that, without a type, is a literal. -/
def isLiteralName (cs : List Char) : Bool :=
  cs = ['t', 'r', 'u', 'e'] || cs = ['f', 'a', 'l', 's', 'e'] || cs = ['n', 'i', 'l'] ||
    isSignedDigits cs

/-- The variadic marker, or a run of name characters that are not all digits. -/
def isReadableName (cs : List Char) : Bool :=
  cs = ['.', '.', '.'] || (!cs.isEmpty && cs.all isNameChar && !cs.all Char.isDigit)

/-- The name and the type can be read; the type itself may allow nil. -/
def Atom.isReadable (a : Atom) : Bool := isReadableName a.name.toList && a.ty.kind.isReadable

/-! ### Values -/

namespace Value

/-- The text of the value begins with a quote mark. -/
def isMarked : Value → Bool
  | .char _ | .quote _ => true
  | _ => false

mutual
/-- Data and syntax that has a text of its own. -/
def isReadable : Value → Bool
  | .nil | .bool _ | .int _ | .char _ | .string _ => true
  | .atom a => a.isReadable && !(a.ty = Ty.any && isLiteralName a.name.toList)
  | .list items => areReadable items
  | .quote inner =>
    match inner with
    | .atom a => a.isReadable && a.name.toList.head? ≠ some '\\'
    | .list items => areReadable items && !items.head?.any isMarked
    | _ => false
  | _ => false
/-- Every one of the values has a text of its own. -/
def areReadable : List Value → Bool
  | [] => true
  | v :: vs => isReadable v && areReadable vs
end

/-- Lists. -/
def isList : Value → Bool
  | .list _ => true
  | _ => false

mutual
/-- How deep lists and quoted lists are nested; a list without elements counts as well. -/
def nesting : Value → Nat
  | .list items => nestingOfItems items + 1
  | .quote inner => nesting inner + if inner.isList then 1 else 0
  | _ => 0
/-- The deepest nesting among some values. -/
def nestingOfItems : List Value → Nat
  | [] => 0
  | v :: vs => max (nesting v) (nestingOfItems vs)
end

/-! ### Layouts -/

/-- The text of the value ends with a delimiter of its own. -/
def isClosed : Value → Bool
  | .string _ | .char _ | .list _ | .quote (.list _) => true
  | _ => false

/-- A quoted name of one character; a second quote mark would make it a character literal. -/
def isHalfCharacter : Value → Bool
  | .quote (.atom a) => a.chars.length = 1
  | _ => false

/-- The text of the value ends where `rest` begins. -/
def EndsBefore (v : Value) (rest : List Char) : Prop :=
  v.isClosed = true ∨
    ∀ c ∈ rest.head?, isBoundary c = true ∧ (v.isHalfCharacter = true → c ≠ '\'')

end Value

/-- Blanks, tabs, carriage returns and line feeds only. -/
def IsSpacing (cs : List Char) : Prop := ∀ c ∈ cs, isSpacing c = true

mutual
/-- A text of a value, with any white space between the nodes of its lists. -/
inductive Layout : Value → List Char → Prop
  | printed {v : Value} (hv : v.isList = false) (hq : ∀ w, v ≠ .quote w) : Layout v v.chars
  | quote {v : Value} {t : List Char} (h : Layout v t) : Layout (.quote v) ('\'' :: t)
  | list {vs : List Value} {s t : List Char} (hs : IsSpacing s) (h : ItemsLayout vs t) :
      Layout (.list vs) ('(' :: (s ++ t ++ [')']))
/-- A text of several values one after the other, each with the white space behind it. -/
inductive ItemsLayout : List Value → List Char → Prop
  | nil : ItemsLayout [] []
  | cons {v : Value} {vs : List Value} {t s u : List Char} (hv : Layout v t) (hs : IsSpacing s)
      (hvs : ItemsLayout vs u) (hend : v.EndsBefore (s ++ u)) :
      ItemsLayout (v :: vs) (t ++ (s ++ u))
end

/-! ### What may follow a value -/

namespace Value

theorem EndsBefore.nil (v : Value) : v.EndsBefore [] := .inr fun c hc => by cases hc

theorem endsBefore_cons {v : Value} {c : Char} {cs : List Char} (hb : isBoundary c = true)
    (hc : c ≠ '\'') : v.EndsBefore (c :: cs) := by
  refine .inr fun d hd => ?_
  cases hd
  exact ⟨hb, fun _ => hc⟩

/-- Only the next character matters. -/
theorem EndsBefore.append {v : Value} {s rest : List Char} (h : v.EndsBefore s)
    (hrest : v.EndsBefore rest) : v.EndsBefore (s ++ rest) := by
  cases s with
  | nil => exact hrest
  | cons c cs =>
    obtain hv | hc := h
    · exact .inl hv
    · exact .inr hc

theorem isBoundary_of_isSpacing {c : Char} (h : isSpacing c = true) : isBoundary c = true := by
  simp only [isSpacing, Bool.or_eq_true, decide_eq_true_eq] at h
  obtain ((rfl | rfl) | rfl) | rfl := h <;> decide

/-- White space ends every value. -/
theorem endsBefore_of_isSpacing {v : Value} {s rest : List Char} (hs : IsSpacing s)
    (hne : s ≠ []) : v.EndsBefore (s ++ rest) := by
  cases s with
  | nil => exact absurd rfl hne
  | cons c cs =>
    have hc : isSpacing c = true := hs c List.mem_cons_self
    refine endsBefore_cons (isBoundary_of_isSpacing hc) ?_
    rintro rfl
    exact absurd hc (by decide)

end Value

/-! ### The printed text is a layout -/

theorem IsSpacing.nil : IsSpacing [] := fun c hc => by cases hc

theorem IsSpacing.blank : IsSpacing [' '] := fun c hc => by
  rw [List.mem_singleton.1 hc]
  decide

mutual
/-- The printer lays a value out with single blanks. -/
theorem Layout.chars : (v : Value) → Layout v v.chars
  | .list items => by
    have h := Layout.list IsSpacing.nil (ItemsLayout.chars items)
    rwa [List.nil_append] at h
  | .quote inner => .quote (Layout.chars inner)
  | .int _ | .float _ | .bool _ | .char _ | .string _ | .nil | .atom _ | .lambda .. | .deferred _
  | .native _ | .time _ | .duration _ | .host _ => .printed rfl (fun _ h => by cases h)
theorem ItemsLayout.chars : (vs : List Value) → ItemsLayout vs (Value.charsOfItems vs)
  | [] => .nil
  | [v] => by
    have h := ItemsLayout.cons (Layout.chars v) IsSpacing.nil .nil (Value.EndsBefore.nil v)
    simpa [Value.charsOfItems, Value.charsOfRest] using h
  | v :: w :: ws => by
    have hend : v.EndsBefore ([' '] ++ Value.charsOfItems (w :: ws)) :=
      Value.endsBefore_of_isSpacing IsSpacing.blank (by simp)
    exact .cons (Layout.chars v) IsSpacing.blank (ItemsLayout.chars (w :: ws)) hend
end

end HostLisp
