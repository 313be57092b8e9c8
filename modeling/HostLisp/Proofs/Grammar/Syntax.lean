import Mathlib
import HostLisp.Environment
import HostLisp.Proofs.Grammar.Program

/-!
# What reading yields

Of all values only literals, atoms, lists and quotes stand for source text, and a quote stands in
front of an atom or a list.  Whatever a dialect reads is such syntax, down to its leaves; its atoms
have names and types that the dialect writes; and it nests less deep than the reader goes:

    yields_wellFormed : d.Yields text v → v.IsSyntax d.HasAtom ∧ v.nesting ≤ 63 ∧ …

The rules of the grammar say this case by case, so the proofs are inductions on them.
-/

namespace HostLisp

/-! ### Syntax -/

/-- Literals, atoms with the property `P`, lists of syntax, and quoted atoms and lists. -/
inductive Value.IsSyntax (P : Atom → Prop) : Value → Prop
  | int (n : Int64) : IsSyntax P (.int n)
  | float (x : Float) : IsSyntax P (.float x)
  | bool (b : Bool) : IsSyntax P (.bool b)
  | char (c : Char) : IsSyntax P (.char c)
  | string (s : String) : IsSyntax P (.string s)
  | nil : IsSyntax P .nil
  | atom {a : Atom} (h : P a) : IsSyntax P (.atom a)
  | list {items : List Value} (h : ∀ v ∈ items, IsSyntax P v) : IsSyntax P (.list items)
  | quotedAtom {a : Atom} (h : P a) : IsSyntax P (.quote (.atom a))
  | quotedList {items : List Value} (h : ∀ v ∈ items, IsSyntax P v) :
      IsSyntax P (.quote (.list items))

theorem Value.IsSyntax.imp {P Q : Atom → Prop} (hPQ : ∀ a, P a → Q a) {v : Value}
    (h : v.IsSyntax P) : v.IsSyntax Q := by
  induction h with
  | int n => exact .int n
  | float x => exact .float x
  | bool b => exact .bool b
  | char c => exact .char c
  | string s => exact .string s
  | nil => exact .nil
  | atom h => exact .atom (hPQ _ h)
  | list _ ih => exact .list ih
  | quotedAtom h => exact .quotedAtom (hPQ _ h)
  | quotedList _ ih => exact .quotedList ih

/-! ### Names and types -/

theorem Kind.isReadable_of_mem_keywords {e : String × Kind} (h : e ∈ Kind.keywords) :
    e.2.isReadable = true := by
  have hall : ∀ e ∈ Kind.keywords, e.2.isReadable = true := by decide
  exact hall e h

namespace Reader

open Parsing

/-- One character or more, none of them white space or a delimiter. -/
structure IsPlainSegment (s : List Char) : Prop where
  ne_nil : s ≠ []
  not_blank : ∀ c ∈ s, Text.isBlank c = false
  not_delimiter : ∀ c ∈ s, c ∉ ['\'', '[', ']', '(', ')', '"', ':', '.']

/-- The variadic marker, or segments with single points between them; without members there is one
segment. -/
inductive IsWrittenName (members : Bool) : List Char → Prop
  | marker : IsWrittenName members ['.', '.', '.']
  | segments {ss : List (List Char)} (hne : ss ≠ []) (hs : ∀ s ∈ ss, IsPlainSegment s)
      (hm : members = false → ss.length = 1) :
      IsWrittenName members (List.intercalate ['.'] ss)

namespace Dialect

/-- Types made of keywords, slices, maps and the types the dialect knows by name. -/
inductive HasType (d : Dialect) : Ty → Prop
  | keyword {word : String} {kind : Kind} (h : (word, kind) ∈ Kind.keywords) :
      HasType d { kind }
  | slice {element : Ty} (h : HasType d element) : HasType d (.sliceOf element)
  | map {key value : Ty} (hkey : HasType d key) (hvalue : HasType d value) :
      HasType d (.mapOf key value)
  | named {word : String} {ty : Ty} (h : d.named word = .known ty) : HasType d ty

/-- An atom that the dialect writes. -/
structure HasAtom (d : Dialect) (a : Atom) : Prop where
  name : IsWrittenName d.members a.name.toList
  not_digits : a.name.toList.all Char.isDigit = false
  type : ∃ ty, d.HasType ty ∧ (a.ty = ty ∨ a.ty = ty.orNil)

/-- A value is read from a text, as its first node or as one of all its nodes. -/
def Yields (d : Dialect) (text : String) (v : Value) : Prop :=
  (∃ rest, d.read text = .ok (v, rest)) ∨ ∃ vs, d.readProgram text = .ok vs ∧ v ∈ vs

end Dialect

/-- An atom of the basic dialect: one segment or the marker, and a type of keywords, slices and maps
with nil allowed outermost at most. -/
structure IsBasicAtom (a : Atom) : Prop where
  name : a.name.toList = ['.', '.', '.'] ∨ IsPlainSegment a.name.toList
  not_digits : a.name.toList.all Char.isDigit = false
  type : a.ty.kind.isReadable = true

/-! ### The basic dialect -/

theorem Dialect.HasType.isPlain_of_basic {ty : Ty} (h : basic.HasType ty) : ty.isPlain = true := by
  induction h with
  | keyword h => simpa [Ty.isPlain] using Kind.isReadable_of_mem_keywords h
  | slice _ ih => simpa [Ty.sliceOf, Ty.isPlain, Kind.isReadable] using ih
  | map _ _ ihkey ihvalue => simp [Ty.mapOf, Ty.isPlain, Kind.isReadable, ihkey, ihvalue]
  | named h => cases h

theorem IsWrittenName.of_basic {n : List Char} (h : IsWrittenName false n) :
    n = ['.', '.', '.'] ∨ IsPlainSegment n := by
  cases h with
  | marker => exact .inl rfl
  | segments hne hs hm =>
    obtain ⟨s, rfl⟩ := List.length_eq_one_iff.1 (hm rfl)
    refine .inr ?_
    simpa using hs s List.mem_cons_self

theorem Dialect.HasAtom.isBasic {a : Atom} (h : basic.HasAtom a) : IsBasicAtom a := by
  obtain ⟨ty, hty, heq⟩ := h.type
  have hplain := Ty.isReadable_kind hty.isPlain_of_basic
  refine ⟨h.name.of_basic, h.not_digits, ?_⟩
  obtain heq | heq := heq
  · rwa [heq]
  · rwa [heq]

/-! ### Atoms -/

theorem IsSegment.isPlainSegment {s : List Char} (h : IsSegment s) : IsPlainSegment s := by
  refine ⟨h.ne_nil, fun c hc => ?_, fun c hc => ?_⟩
  all_goals
    have hname := h.chars c hc
    simp only [isNameChar, Bool.not_eq_true', Bool.or_eq_false_iff] at hname
  · exact hname.1
  · simpa using hname.2

theorem intercalate_point (first : List Char) (further : List (List Char)) :
    List.intercalate ['.'] (first :: further) = first ++ memberPath further := by
  induction further generalizing first with
  | nil => simp [memberPath]
  | cons s further ih =>
    have hrest := ih s
    simp only [List.intercalate, memberPath, List.flatMap_cons] at hrest ⊢
    simp [hrest]

theorem IsName.isWrittenName {d : Dialect} {n : List Char} (h : IsName d n) :
    IsWrittenName d.members n := by
  cases h with
  | @mk first further hfirst hfurther hm =>
    rw [← intercalate_point]
    refine .segments (List.cons_ne_nil first further) ?_ ?_
    · intro s hs
      cases hs with
      | head => exact hfirst.isPlainSegment
      | tail _ hs => exact (hfurther s hs).isPlainSegment
    · intro hd
      by_contra hlen
      have hne : further ≠ [] := by
        rintro rfl
        exact hlen rfl
      rw [hd] at hm
      cases hm hne

theorem Named.isWrittenName {d : Dialect} {n k : List Char} (h : Named d n k) :
    IsWrittenName d.members n := by
  obtain rfl | ⟨hn, -⟩ := h
  · exact .marker
  · exact hn.isWrittenName

theorem TypeRead.hasType {d : Dialect} {cs k : List Char} {ty : Ty} (h : TypeRead d cs ty k) :
    d.HasType ty := by
  induction h with
  | keyword h hk => exact .keyword h
  | map _ _ ihkey ihvalue => exact .map ihkey ihvalue
  | slice _ ih => exact .slice ih
  | named hne hn hk hb h => exact .named h

theorem AnnotationRead.hasType {d : Dialect} {cs k : List Char} {written : Option Ty}
    (h : AnnotationRead d cs written k) :
    ∃ ty, d.HasType ty ∧ (written.getD Ty.any = ty ∨ written.getD Ty.any = ty.orNil) := by
  cases h with
  | none h =>
    have hany : ("any", Kind.any) ∈ Kind.keywords := by decide
    exact ⟨Ty.any, .keyword hany, .inl rfl⟩
  | plain h hk => exact ⟨_, h.hasType, .inl rfl⟩
  | optional h => exact ⟨_, h.hasType, .inr rfl⟩

theorem AtomRead.hasAtom {d : Dialect} {cs k : List Char} {a : Atom} (h : AtomRead d cs a k) :
    d.HasAtom a := by
  obtain ⟨hn, hd, h⟩ := h
  refine ⟨?_, ?_, h.hasType⟩
  · simpa using hn.isWrittenName
  · simpa using hd

/-! ### Nodes -/

/-- Whatever `p` reads is syntax. -/
def ReadsSyntax (d : Dialect) (p : Reads Value) : Prop :=
  ∀ cs v k, p cs = .ok (v, k) → v.IsSyntax d.HasAtom

theorem readsSyntax_literal (d : Dialect) : ReadsSyntax d literal := by
  intro cs v k h
  obtain ⟨p, hp, hx⟩ := exists_of_choice h
  simp only [List.mem_cons, List.not_mem_nil, or_false] at hp
  rcases hp with rfl | rfl | rfl | rfl
  all_goals obtain ⟨a, -, rfl⟩ := exists_of_map hx
  · exact .float a
  · exact .int a
  · exact .bool a
  · exact .nil

theorem ItemsRead.isSyntax {d : Dialect} {p : Reads Value} (hp : ReadsSyntax d p)
    {cs k : List Char} {vs : List Value} (h : ItemsRead p cs vs k) :
    ∀ v ∈ vs, v.IsSyntax d.HasAtom := by
  induction h with
  | done h => simp
  | item h hs ih =>
    intro v hv
    cases hv with
    | head => exact hp _ _ _ h
    | tail _ hv => exact ih v hv

theorem NodeRead.isSyntax {d : Dialect} {element deeper : Reads Value}
    (he : ReadsSyntax d element) (hd : ReadsSyntax d deeper) {cs k : List Char} {v : Value}
    (h : NodeRead d element deeper cs v k) : v.IsSyntax d.HasAtom := by
  cases h with
  | string h => exact .string _
  | character h => exact .char _
  | quotedAtom hc h => exact .quotedAtom h.hasAtom
  | quotedList hc h => exact .quotedList (h.isSyntax hd)
  | list h => exact .list (h.isSyntax he)
  | literal hm h => exact readsSyntax_literal d _ _ _ h
  | atom hm hl h => exact .atom h.hasAtom

/-- However many levels are left.  The induction is on the levels. -/
theorem readsSyntax_node (d : Dialect) (n : Nat) : ReadsSyntax d (node d n) := by
  induction n using Nat.strongRecOn with
  | ind n ih =>
    intro cs v k h
    cases n with
    | zero => cases h
    | succ n => exact (node_eq_ok_iff.1 h).isSyntax (ih n n.lt_succ_self) (ih (n - 1) (by omega))

/-! ### Texts -/

namespace Dialect.Yields

variable {d : Dialect} {text : String} {v : Value}

theorem isSyntax (h : d.Yields text v) : v.IsSyntax d.HasAtom := by
  obtain ⟨rest, h⟩ | ⟨vs, h, hv⟩ := h
  · obtain ⟨k, hnode, -⟩ := exists_of_readWithin h
    exact readsSyntax_node d _ _ _ _ hnode
  · exact (readProgram_eq_ok_iff.1 h).isSyntax (readsSyntax_node d maxReadDepth) v hv

theorem nesting_lt (h : d.Yields text v) : v.nesting < maxReadDepth := by
  obtain ⟨rest, h⟩ | ⟨vs, h, hv⟩ := h
  · obtain ⟨k, hnode, -⟩ := exists_of_readWithin h
    exact nesting_lt_of_node d hnode
  · obtain ⟨vs', k, hprogram, rfl⟩ := exists_of_run_map h
    exact Nat.lt_of_le_of_lt (nesting_le_of_mem hv) (nestingOfItems_lt_of_programWithin d hprogram)

end Dialect.Yields

/-- What a text yields is syntax with atoms of the dialect, and nests at most 63 deep: each list and
each quoted list counts, a quoted atom does not.  In the basic dialect the atoms are basic. -/
theorem yields_wellFormed (d : Dialect) (text : String) (v : Value) (h : d.Yields text v) :
    v.IsSyntax d.HasAtom ∧ v.nesting ≤ 63 ∧ (d = basic → v.IsSyntax IsBasicAtom) := by
  refine ⟨h.isSyntax, Nat.le_of_lt_succ h.nesting_lt, ?_⟩
  rintro rfl
  exact h.isSyntax.imp fun _ ha => ha.isBasic

/-- A quoted list with an optional type and a marker in the basic dialect, a member in another. -/
theorem yields_wellFormed_both :
    (basic.Yields "'(x::[]any? ...)"
        (.quote (.list [.atom ⟨"x", (Ty.sliceOf .any).orNil⟩, .ofName "..."])) ∧
      (Value.quote (.list [.atom ⟨"x", (Ty.sliceOf .any).orNil⟩, .ofName "..."])).IsSyntax
        IsBasicAtom) ∧
    Environment.empty.dialect.Yields "x (time.now)" (.list [.ofName "time.now"]) ∧
      (Value.list [.ofName "time.now"]).IsSyntax Environment.empty.dialect.HasAtom := by
  have hbasic : basic.read "'(x::[]any? ...)" =
      .ok (.quote (.list [.atom ⟨"x", (Ty.sliceOf .any).orNil⟩, .ofName "..."]), "") := by cbv
  have hother : Environment.empty.dialect.readProgram "x (time.now)" =
      .ok [.ofName "x", .list [.ofName "time.now"]] := by cbv
  have hyields : basic.Yields _ _ := .inl ⟨_, hbasic⟩
  have hmember : Environment.empty.dialect.Yields "x (time.now)" (.list [.ofName "time.now"]) :=
    .inr ⟨_, hother, by simp⟩
  exact ⟨⟨hyields, (yields_wellFormed _ _ _ hyields).2.2 rfl⟩, hmember,
    (yields_wellFormed _ _ _ hmember).1⟩

end Reader

end HostLisp
