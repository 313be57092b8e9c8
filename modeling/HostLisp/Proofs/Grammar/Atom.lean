import HostLisp.Proofs.Grammar.Type
import HostLisp.Proofs.Parsing.Progress

/-!
# The grammar of atoms

An atom is a name and an optional annotation.  A name is the variadic marker, or segments between
points; it ends where neither a name character nor, in a dialect with members, another segment
follows.  Reading an atom follows these rules, whether it succeeds, fails for good, or leaves the
text to others:

    atom_eq_ok_iff : atom d cs = .ok (a, k) ↔ AtomRead d cs a k
    atom_eq_cut_iff : atom d cs = .error (.cut f) ↔ AtomCut d cs f
    backtracks_atom_iff : Backtracks (atom d) cs ↔ Nameless cs.
-/

namespace HostLisp.Reader

open Parsing

/-! ### Segments -/

/-- A run of name characters. -/
structure IsSegment (s : List Char) : Prop where
  ne_nil : s ≠ []
  chars : ∀ c ∈ s, isNameChar c = true

theorem IsSegment.exists_cons {s : List Char} (h : IsSegment s) :
    ∃ c t, s = c :: t ∧ isNameChar c = true := by
  cases s with
  | nil => exact absurd rfl h.ne_nil
  | cons c t => exact ⟨c, t, rfl, h.chars c List.mem_cons_self⟩

theorem takeWhile_segment {s k : List Char} (hs : ∀ c ∈ s, isNameChar c = true)
    (hk : EndsName k) :
    (s ++ k).takeWhile isNameChar = s ∧ (s ++ k).dropWhile isNameChar = k := by
  rw [List.takeWhile_append_of_pos hs, List.dropWhile_append_of_pos hs,
    hk.takeWhile_eq_nil fun _ h => h, hk.dropWhile_eq_self fun _ h => h, List.append_nil]
  exact ⟨rfl, rfl⟩

theorem endsName_dropWhile (cs : List Char) : EndsName (cs.dropWhile isNameChar) := by
  intro c hc
  have h := List.head?_dropWhile_not isNameChar cs
  rw [Option.mem_def.1 hc] at h
  simpa using h

theorem exists_segment {cs : List Char} (h : ¬ EndsName cs) :
    ∃ s k, cs = s ++ k ∧ IsSegment s ∧ EndsName k := by
  have hk := endsName_dropWhile cs
  have hsplit := List.takeWhile_append_dropWhile (p := isNameChar) (l := cs)
  refine ⟨_, _, hsplit.symm, ⟨?_, fun c hc => List.mem_takeWhile_imp hc⟩, hk⟩
  intro hnil
  rw [hnil, List.nil_append] at hsplit
  rw [hsplit] at hk
  exact h hk

theorem nameSegment_append {s k : List Char} (hs : IsSegment s) (hk : EndsName k) :
    nameSegment (s ++ k) = .ok (s, k) := by
  obtain ⟨htake, hdrop⟩ := takeWhile_segment hs.chars hk
  simp [nameSegment, htake, hdrop, hs.ne_nil]

theorem backtracks_nameSegment {cs : List Char} (h : EndsName cs) :
    Backtracks nameSegment cs := by
  have htake := (takeWhile_segment (s := []) (by simp) h).1
  rw [List.nil_append] at htake
  exact ⟨Fault.unexpectedAt cs, by simp [nameSegment, htake]⟩

/-! ### Names -/

/-- Segments behind points. -/
def memberPath (further : List (List Char)) : List Char := further.flatMap ('.' :: ·)

/-- No member follows. -/
def EndsMembers (k : List Char) : Prop := ∀ t, k = '.' :: t → EndsName t

/-- A name ends in front of the text. -/
structure EndsNameOf (d : Dialect) (k : List Char) : Prop where
  name : EndsName k
  members : d.members = true → EndsMembers k

/-- A segment, in a dialect with members followed by others. -/
inductive IsName (d : Dialect) : List Char → Prop
  | mk {first : List Char} {further : List (List Char)} (hfirst : IsSegment first)
      (hfurther : ∀ s ∈ further, IsSegment s) (hm : further ≠ [] → d.members = true) :
      IsName d (first ++ memberPath further)

/-- `n` is the whole name in front of `k`. -/
def Named (d : Dialect) (n k : List Char) : Prop :=
  n = ['.', '.', '.'] ∨ IsName d n ∧ EndsNameOf d k

/-- A further segment behind a point. -/
def member : Reads (List Char) := preceded (char '.') nameSegment

theorem member_append {s k : List Char} (hs : IsSegment s) (hk : EndsName k) :
    member ('.' :: (s ++ k)) = .ok (s, k) := by
  rw [member, preceded_of_ok (char_cons '.' _)]
  exact nameSegment_append hs hk

theorem backtracks_member {k : List Char} (h : EndsMembers k) : Backtracks member k := by
  cases k with
  | nil => exact (backtracks_char (by simp)).preceded
  | cons c t =>
    by_cases hc : c = '.'
    · subst hc
      exact .bind_right (char_cons '.' t) (backtracks_nameSegment (h t rfl))
    · exact (backtracks_char (by simpa using hc)).preceded

theorem endsName_memberPath (further : List (List Char)) {k : List Char} (hk : EndsName k) :
    EndsName (memberPath further ++ k) := by
  cases further with
  | nil => exact hk
  | cons s further => exact .cons (by decide)

/-- The members behind a name.  The induction is on the segments. -/
theorem many_member_append {further : List (List Char)} {k : List Char}
    (hs : ∀ s ∈ further, IsSegment s) (hk : EndsName k) (hm : EndsMembers k) :
    many member (memberPath further ++ k) = .ok (further, k) := by
  induction further with
  | nil => exact many_of_backtracks (backtracks_member hm)
  | cons s further ih =>
    have hrest := ih fun t ht => hs t (List.mem_cons_of_mem s ht)
    have htext : memberPath (s :: further) ++ k = '.' :: (s ++ (memberPath further ++ k)) := by
      simp [memberPath]
    have hend := endsName_memberPath further hk
    have hread := member_append (hs s List.mem_cons_self) hend
    rw [htext]
    refine many_cons hread ?_ hrest
    simp only [remaining_list, List.length_cons, List.length_append]
    omega

/-- What follows a segment is a row of members and a text with no further one. -/
theorem exists_memberPath {cs : List Char} (h : EndsName cs) :
    ∃ further k, cs = memberPath further ++ k ∧ (∀ s ∈ further, IsSegment s) ∧ EndsName k ∧
      EndsMembers k := by
  induction hlen : cs.length using Nat.strongRecOn generalizing cs with
  | ind m ih =>
    subst hlen
    by_cases hm : EndsMembers cs
    · exact ⟨[], cs, rfl, by simp, h, hm⟩
    obtain ⟨t, rfl, ht⟩ : ∃ t, cs = '.' :: t ∧ ¬ EndsName t := by
      simpa [EndsMembers] using hm
    obtain ⟨s, r, rfl, hs, hr⟩ := exists_segment ht
    have hlt : r.length < ('.' :: (s ++ r)).length :=
      Nat.lt_succ_of_lt (length_lt_append hs.ne_nil r)
    obtain ⟨further, k, rfl, hfurther, hk⟩ := ih r.length hlt hr rfl
    refine ⟨s :: further, k, by simp [memberPath], ?_, hk⟩
    intro u hu
    cases hu with
    | head => exact hs
    | tail _ hu => exact hfurther u hu

/-! ### Reading names -/

/-- Neither the marker nor a name stands in front of the text. -/
structure Nameless (cs : List Char) : Prop where
  endsName : EndsName cs
  marker : ¬ ['.', '.', '.'] <+: cs

theorem IsSegment.isName {d : Dialect} {s : List Char} (h : IsSegment s) : IsName d s := by
  have hn : IsName d (s ++ memberPath []) := .mk h (by simp) (by simp)
  simpa [memberPath] using hn

theorem IsName.not_marker {d : Dialect} {n : List Char} (h : IsName d n) (k : List Char) :
    ¬ ['.', '.', '.'] <+: n ++ k := by
  obtain ⟨hfirst, -, -⟩ := h
  obtain ⟨c, t, rfl, hc⟩ := hfirst.exists_cons
  intro hp
  simp only [List.cons_append, List.cons_prefix_cons] at hp
  rw [← hp.1] at hc
  cases hc

theorem name_eq_orElse (d : Dialect) :
    name d = orElse (lex (Lexeme.word ['.', '.', '.'])) (nameSegment >>= fun first =>
      if d.members then many member >>= fun further => pure (first ++ memberPath further)
      else pure first) := rfl

theorem Named.name_eq {d : Dialect} {n k : List Char} (h : Named d n k) :
    name d (n ++ k) = .ok (n, k) := by
  obtain rfl | ⟨hn, hk⟩ := h
  · exact orElse_of_ok (lex_of_found (Lexeme.word_append ['.', '.', '.'] k))
  have hmarker := hn.not_marker k
  cases hn with
  | @mk first further hfirst hfurther hm =>
    have hsegment : nameSegment (first ++ (memberPath further ++ k)) =
        .ok (first, memberPath further ++ k) :=
      nameSegment_append hfirst (endsName_memberPath further hk.name)
    rw [name_eq_orElse, orElse_of_backtracks (backtracks_lex (Lexeme.word_eq_mismatch hmarker)),
      List.append_assoc, bind_of_ok hsegment]
    split
    · next hd =>
      rw [bind_of_ok (many_member_append hfurther hk.name (hk.members hd))]
      rfl
    · next hd =>
      obtain rfl : further = [] := by
        cases further with
        | nil => rfl
        | cons s further => exact absurd (hm (by simp)) hd
      simp [memberPath]

theorem Nameless.backtracks_name {d : Dialect} {cs : List Char} (h : Nameless cs) :
    Backtracks (name d) cs :=
  (backtracks_lex (Lexeme.word_eq_mismatch h.marker)).orElse
    (backtracks_nameSegment h.endsName).bind

/-- A text begins with a name, or there is none. -/
theorem exists_named_or_nameless (d : Dialect) (cs : List Char) :
    (∃ n k, cs = n ++ k ∧ Named d n k) ∨ Nameless cs := by
  by_cases hmarker : ['.', '.', '.'] <+: cs
  · obtain ⟨k, rfl⟩ := hmarker
    exact .inl ⟨_, k, rfl, .inl rfl⟩
  by_cases hname : EndsName cs
  · exact .inr ⟨hname, hmarker⟩
  obtain ⟨first, r, rfl, hfirst, hr⟩ := exists_segment hname
  left
  by_cases hm : d.members = true
  · obtain ⟨further, k, rfl, hfurther, hk, hend⟩ := exists_memberPath hr
    exact ⟨_, k, (List.append_assoc ..).symm,
      .inr ⟨.mk hfirst hfurther fun _ => hm, hk, fun _ => hend⟩⟩
  · exact ⟨first, r, rfl, .inr ⟨hfirst.isName, hr, fun h => absurd h hm⟩⟩

theorem name_eq_ok_iff {d : Dialect} {cs n k : List Char} :
    name d cs = .ok (n, k) ↔ cs = n ++ k ∧ Named d n k := by
  constructor
  · intro h
    obtain ⟨n', k', rfl, hn⟩ | hn := exists_named_or_nameless d cs
    · rw [hn.name_eq] at h
      cases h
      exact ⟨rfl, hn⟩
    · obtain ⟨e, he⟩ := hn.backtracks_name (d := d)
      rw [he] at h
      cases h
  · intro h
    obtain ⟨rfl, hn⟩ := h
    exact hn.name_eq

/-! ### Annotations -/

/-- An annotation in front of a text, or none. -/
inductive AnnotationRead (d : Dialect) : List Char → Option Ty → List Char → Prop
  | none {k : List Char} (h : ¬ [':', ':'] <+: k) : AnnotationRead d k none k
  | plain {ts k : List Char} {ty : Ty} (h : TypeRead d ts ty k) (hk : ∀ c ∈ k.head?, c ≠ '?') :
      AnnotationRead d (':' :: ':' :: ts) (some ty) k
  | optional {ts k : List Char} {ty : Ty} (h : TypeRead d ts ty ('?' :: k)) :
      AnnotationRead d (':' :: ':' :: ts) (some ty.orNil) k

theorem AnnotationRead.annotation_eq {d : Dialect} {cs k : List Char} {ty : Option Ty}
    (h : AnnotationRead d cs ty k) : annotation d cs = .ok (ty, k) := by
  cases h with
  | none h =>
    unfold annotation
    split
    · next ts => exact absurd (List.prefix_append [':', ':'] ts) h
    · rfl
  | plain h hk =>
    obtain ⟨hlt, h⟩ := h.startsWithType
    unfold annotation
    simp only [h]
    split
    · next rest => exact absurd rfl (hk '?' rfl)
    · rfl
  | optional h =>
    obtain ⟨hlt, h⟩ := h.startsWithType
    unfold annotation
    simp only [h]

theorem TypeFault.annotation_eq {d : Dialect} {ts : List Char} {f : Fault}
    (h : TypeFault d ts f) : annotation d (':' :: ':' :: ts) = .error (.cut f) := by
  unfold annotation
  simp only [h.typeExpr_eq]

/-- Behind a name stands an annotation, none, or a broken one. -/
theorem annotationRead_or_typeFault (d : Dialect) (cs : List Char) :
    (∃ ty k, AnnotationRead d cs ty k) ∨ ∃ ts f, cs = ':' :: ':' :: ts ∧ TypeFault d ts f := by
  by_cases h : [':', ':'] <+: cs
  · obtain ⟨ts, rfl⟩ := h
    obtain ⟨ty, k, hty⟩ | ⟨f, hf⟩ := typeRead_or_typeFault d ts
    · by_cases hk : ∃ r, k = '?' :: r
      · obtain ⟨r, rfl⟩ := hk
        exact .inl ⟨_, _, .optional hty⟩
      · exact .inl ⟨_, _, .plain hty (head_ne_of_not_cons hk)⟩
    · exact .inr ⟨ts, f, rfl, hf⟩
  · exact .inl ⟨_, _, .none h⟩

/-! ### Atoms -/

/-- An atom in front of a text. -/
inductive AtomRead (d : Dialect) : List Char → Atom → List Char → Prop
  | mk {n r k : List Char} {ty : Option Ty} (hn : Named d n r) (hd : n.all Char.isDigit = false)
      (h : AnnotationRead d r ty k) : AtomRead d (n ++ r) ⟨String.ofList n, ty.getD Ty.any⟩ k

/-- A text that begins like an atom and is broken. -/
inductive AtomCut (d : Dialect) : List Char → Fault → Prop
  | digits {n r : List Char} (hn : Named d n r) (hd : n.all Char.isDigit = true) :
      AtomCut d (n ++ r) ⟨.integerName n, n ++ r⟩
  | type {n ts : List Char} {f : Fault} (hn : Named d n (':' :: ':' :: ts))
      (hd : n.all Char.isDigit = false) (h : TypeFault d ts f) :
      AtomCut d (n ++ ':' :: ':' :: ts) f

section
variable {d : Dialect} {cs k : List Char} {a : Atom} {f : Fault}

theorem AtomRead.atom_eq (h : AtomRead d cs a k) : atom d cs = .ok (a, k) := by
  obtain ⟨hn, hd, h⟩ := h
  simp only [atom, hn.name_eq, bind, Except.bind, hd, h.annotation_eq, Bool.false_eq_true, if_false]

theorem AtomCut.atom_eq (h : AtomCut d cs f) : atom d cs = .error (.cut f) := by
  cases h with
  | digits hn hd => simp only [atom, hn.name_eq, bind, Except.bind, hd, if_true]
  | type hn hd h =>
    simp only [atom, hn.name_eq, bind, Except.bind, hd, h.annotation_eq, Bool.false_eq_true,
      if_false]

theorem Nameless.backtracks_atom (h : Nameless cs) : Backtracks (atom d) cs := by
  obtain ⟨e, he⟩ := h.backtracks_name (d := d)
  exact ⟨e, by simp only [atom, he, bind, Except.bind]⟩

theorem atom_cases (d : Dialect) (cs : List Char) :
    (∃ a k, AtomRead d cs a k) ∨ (∃ f, AtomCut d cs f) ∨ Nameless cs := by
  obtain ⟨n, r, rfl, hn⟩ | h := exists_named_or_nameless d cs
  · cases hd : n.all Char.isDigit with
    | true => exact .inr (.inl ⟨_, .digits hn hd⟩)
    | false =>
      obtain ⟨ty, k, h⟩ | ⟨ts, f, rfl, h⟩ := annotationRead_or_typeFault d r
      · exact .inl ⟨_, _, .mk hn hd h⟩
      · exact .inr (.inl ⟨_, .type hn hd h⟩)
  · exact .inr (.inr h)

theorem atom_eq_ok_iff : atom d cs = .ok (a, k) ↔ AtomRead d cs a k := by
  refine ⟨?_, AtomRead.atom_eq⟩
  intro h
  obtain ⟨a', k', hread⟩ | ⟨f, hf⟩ | hn := atom_cases d cs
  · rw [hread.atom_eq] at h
    cases h
    exact hread
  · rw [hf.atom_eq] at h
    cases h
  · obtain ⟨e, he⟩ := hn.backtracks_atom (d := d)
    rw [he] at h
    cases h

theorem atom_eq_cut_iff : atom d cs = .error (.cut f) ↔ AtomCut d cs f := by
  refine ⟨?_, AtomCut.atom_eq⟩
  intro h
  obtain ⟨a, k, hread⟩ | ⟨f', hf⟩ | hn := atom_cases d cs
  · rw [hread.atom_eq] at h
    cases h
  · rw [hf.atom_eq] at h
    cases h
    exact hf
  · obtain ⟨e, he⟩ := hn.backtracks_atom (d := d)
    rw [he] at h
    cases h

theorem backtracks_atom_iff : Backtracks (atom d) cs ↔ Nameless cs := by
  refine ⟨?_, Nameless.backtracks_atom⟩
  intro h
  obtain ⟨e, he⟩ := h
  obtain ⟨a, k, hread⟩ | ⟨f', hf⟩ | hn := atom_cases d cs
  · rw [hread.atom_eq] at he
    cases he
  · rw [hf.atom_eq] at he
    cases he
  · exact hn

end

end HostLisp.Reader
