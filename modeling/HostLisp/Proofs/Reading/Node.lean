import HostLisp.Proofs.Reading.Annotation
import HostLisp.Proofs.Reading.Literal

/-!
# One node

Atoms are read back with their types, and for each kind of text the first alternative that does not
backtrack is the one that the text was written for.
-/

namespace HostLisp.Reader

open Parsing

/-! ### Names -/

theorem isReadableName_cases {n : List Char} (h : isReadableName n = true) :
    n = ['.', '.', '.'] ∨
      n ≠ [] ∧ (∀ c ∈ n, isNameChar c = true) ∧ n.all Char.isDigit = false := by
  simp only [isReadableName, Bool.or_eq_true, decide_eq_true_eq, Bool.and_eq_true,
    Bool.not_eq_true', List.isEmpty_eq_false_iff] at h
  obtain hmarker | ⟨⟨hne, hchars⟩, hdigits⟩ := h
  · exact .inl hmarker
  · exact .inr ⟨hne, List.all_eq_true.1 hchars, hdigits⟩

theorem Atom.isReadable_name {a : Atom} (h : a.isReadable = true) :
    isReadableName a.name.toList = true := by
  rw [Atom.isReadable, Bool.and_eq_true] at h
  exact h.1

theorem Atom.isReadable_kind {a : Atom} (h : a.isReadable = true) :
    a.ty.kind.isReadable = true := by
  rw [Atom.isReadable, Bool.and_eq_true] at h
  exact h.2

/-- The name in front of a text: everything up to a boundary or a colon. -/
theorem name_append (d : Dialect) {n k : List Char} (hn : isReadableName n = true)
    (hk : EndsName k) (hpoint : ∀ c ∈ k.head?, c ≠ '.') : name d (n ++ k) = .ok (n, k) := by
  obtain rfl | ⟨hne, hchars, -⟩ := isReadableName_cases hn
  · exact orElse_of_ok (lex_of_found (Lexeme.word_append ['.', '.', '.'] k))
  have hword : ¬ ['.', '.', '.'] <+: n ++ k := by
    cases n with
    | nil => exact absurd rfl hne
    | cons c n =>
      rw [List.cons_append, List.cons_prefix_cons]
      rintro ⟨rfl, -⟩
      exact absurd (hchars '.' List.mem_cons_self) (by decide)
  have hmarker : Backtracks (lex (Lexeme.word ['.', '.', '.']) : Reads (List Char)) (n ++ k) :=
    backtracks_lex (Lexeme.word_eq_mismatch hword)
  have hsegment : nameSegment (n ++ k) = .ok (n, k) := by
    have htake : (n ++ k).takeWhile isNameChar = n := by
      rw [List.takeWhile_append_of_pos hchars, hk.takeWhile_eq_nil fun _ h => h, List.append_nil]
    have hdrop : (n ++ k).dropWhile isNameChar = k := by
      rw [List.dropWhile_append_of_pos hchars, hk.dropWhile_eq_self fun _ h => h]
    simp only [nameSegment, htake, hdrop, List.isEmpty_iff, hne, if_false]
  unfold name
  rw [orElse_of_backtracks hmarker, bind_of_ok hsegment]
  split
  · rw [bind_of_ok (many_of_backtracks (backtracks_char hpoint).preceded)]
    simp
  · rfl

theorem backtracks_name (d : Dialect) {cs : List Char} (h : Stops cs) :
    Backtracks (name d) cs := by
  have hword : ¬ ['.', '.', '.'] <+: cs := by
    cases cs with
    | nil => simp
    | cons c cs =>
      rw [List.cons_prefix_cons]
      rintro ⟨rfl, -⟩
      exact absurd (h '.' rfl) (by decide)
  have hsegment : Backtracks nameSegment cs := by
    refine ⟨Fault.unexpectedAt cs, ?_⟩
    simp [nameSegment, h.endsName.takeWhile_eq_nil fun _ h => h]
  exact (backtracks_lex (Lexeme.word_eq_mismatch hword)).orElse hsegment.bind

/-! ### Atoms -/

theorem backtracks_atom (d : Dialect) {cs : List Char} (h : Stops cs) :
    Backtracks (atom d) cs := by
  obtain ⟨e, he⟩ := backtracks_name d h
  exact ⟨e, by simp only [atom, he, bind, Except.bind]⟩

/-- What stands behind the name of an atom: its annotation, if it has one, and the text `k`. -/
structure AfterName (d : Dialect) (a : Atom) (k rest : List Char) : Prop where
  text : a.chars ++ k = a.name.toList ++ rest
  endsName : EndsName rest
  noPoint : ∀ c ∈ rest.head?, c ≠ '.'
  /-- The annotation keeps a literal from ending where the name does. -/
  noBoundary : a.ty ≠ Ty.any → ∃ c ∈ rest.head?, isBoundary c = false
  noMark : (a.ty = Ty.any → ∀ c ∈ k.head?, c ≠ '\'') → ∀ c ∈ rest.head?, c ≠ '\''
  annotation : ∃ ty, Reader.annotation d rest = .ok (ty, k) ∧ ty.getD Ty.any = a.ty

theorem exists_afterName (d : Dialect) {a : Atom} (ha : a.isReadable = true) {k : List Char}
    (hk : Stops k) : ∃ rest, AfterName d a k rest := by
  by_cases hany : a.ty = Ty.any
  · refine ⟨k, ⟨by simp [Atom.chars, hany], hk.endsName, ?_, absurd hany, fun h => h hany,
      none, ?_, hany.symm⟩⟩
    · rintro c hc rfl
      exact absurd (hk _ hc) (by decide)
    · refine annotation_of_no_colon d ?_
      rintro c hc rfl
      exact absurd (hk _ hc) (by decide)
  · have htext : a.chars ++ k = a.name.toList ++ ':' :: ':' :: (a.ty.chars ++ k) := by
      simp [Atom.chars, hany]
    refine ⟨_, ⟨htext, by rintro c ⟨⟩; decide, by rintro c ⟨⟩; decide, ?_, ?_, some a.ty, ?_, rfl⟩⟩
    · exact fun _ => ⟨':', rfl, by decide⟩
    · rintro - c ⟨⟩
      decide
    · exact annotation_append d (Atom.isReadable_kind ha) hk

theorem atom_append (d : Dialect) {a : Atom} (ha : a.isReadable = true) {k : List Char}
    (hk : Stops k) : atom d (a.chars ++ k) = .ok (a, k) := by
  obtain ⟨rest, h⟩ := exists_afterName d ha hk
  have hname : isReadableName a.name.toList = true := Atom.isReadable_name ha
  have hdigits : a.name.toList.all Char.isDigit = false := by
    obtain hmarker | ⟨-, -, hdigits⟩ := isReadableName_cases hname
    · rw [hmarker]
      decide
    · exact hdigits
  obtain ⟨ty, hann, hty⟩ := h.annotation
  rw [h.text]
  simp only [atom, name_append d hname h.endsName h.noPoint, bind, Except.bind, hdigits, hann, hty,
    Bool.false_eq_true, if_false, String.ofList_toList]

/-! ### No number and no keyword -/

/-- None of the parsers of numbers and keywords takes the text. -/
structure NoWord (cs : List Char) : Prop where
  float : Backtracks Reader.float cs
  int : Backtracks Reader.int cs
  bool : Backtracks Reader.bool cs
  nil : Backtracks Reader.nil cs

theorem noWord_of_endsName {cs : List Char} (h : EndsName cs) : NoWord cs where
  float := backtracks_float (n := []) h (by simp) (.inl rfl)
  int := backtracks_int (n := []) h (by simp) (.inl rfl)
  bool := backtracks_bool (n := []) h (by simp) (by simp)
  nil := backtracks_nil (n := []) h (by simp) (by simp)

theorem isSignedDigits_or_all_isDigit {n : List Char} (hne : dropSign n ≠ [])
    (h : (dropSign n).dropWhile Char.isDigit = []) :
    isSignedDigits n = true ∨ n.all Char.isDigit = true := by
  rw [List.dropWhile_eq_nil_iff, ← List.all_eq_true] at h
  unfold dropSign at hne h
  split at h
  · exact .inl (by simpa [isSignedDigits] using And.intro hne (List.all_eq_true.1 h))
  · exact .inl (by simpa [isSignedDigits] using And.intro hne (List.all_eq_true.1 h))
  · exact .inr h

/-- A run of name characters that is no literal, or that no boundary follows. -/
theorem noWord_of_name {n k : List Char} (hn : ∀ c ∈ n, isNameChar c = true) (hk : EndsName k)
    (hdigits : n.all Char.isDigit = false) (hpoint : ∀ c ∈ k.head?, c ≠ '.')
    (h : isLiteralName n = true → ∃ c ∈ k.head?, isBoundary c = false) : NoWord (n ++ k) where
  float := backtracks_float hk hn (.inr hpoint)
  int := by
    refine backtracks_int hk hn ?_
    by_cases htake : (dropSign n).takeWhile Char.isDigit = []
    · exact .inl htake
    by_cases hdrop : (dropSign n).dropWhile Char.isDigit = []
    · have hne : dropSign n ≠ [] := by
        rintro he
        exact htake (by rw [he]; rfl)
      obtain hs | hall := isSignedDigits_or_all_isDigit hne hdrop
      · exact .inr (.inr (h (by simp [isLiteralName, hs])))
      · rw [hdigits] at hall
        cases hall
    · exact .inr (.inl hdrop)
  bool := backtracks_bool hk hn (by rintro (rfl | rfl) <;> exact h (by decide))
  nil := backtracks_nil hk hn (by rintro rfl; exact h (by decide))

/-- A readable atom is no literal: its annotation or its name says so. -/
theorem noWord_atom (d : Dialect) {a : Atom} (ha : a.isReadable = true)
    (hliteral : (a.ty = Ty.any && isLiteralName a.name.toList) = false) {k : List Char}
    (hk : Stops k) : NoWord (a.chars ++ k) := by
  obtain ⟨rest, h⟩ := exists_afterName d ha hk
  rw [h.text]
  obtain hmarker | ⟨-, hchars, hdigits⟩ := isReadableName_cases (Atom.isReadable_name ha)
  · rw [hmarker]
    exact noWord_of_endsName (by rintro c ⟨⟩; decide)
  · refine noWord_of_name hchars h.endsName hdigits h.noPoint fun hl => ?_
    refine h.noBoundary fun hany => ?_
    simp [hany, hl] at hliteral

/-- There is no boundary in a readable name. -/
theorem isBoundary_of_mem_name {n : List Char} (h : isReadableName n = true) :
    ∀ c ∈ n, isBoundary c = false := by
  obtain rfl | ⟨-, hchars, -⟩ := isReadableName_cases h
  · intro c hc
    obtain rfl : c = '.' := by simpa using hc
    decide
  · exact fun c hc => isBoundary_of_isNameChar (hchars c hc)

theorem exists_cons_name {n : List Char} (h : isReadableName n = true) :
    ∃ c cs, n = c :: cs ∧ isBoundary c = false := by
  cases n with
  | nil => cases h
  | cons c cs => exact ⟨c, cs, rfl, isBoundary_of_mem_name h c List.mem_cons_self⟩

/-- The text of an atom begins with its name. -/
theorem name_isPrefixOf_chars (a : Atom) : a.name.toList <+: a.chars := by
  unfold Atom.chars
  split
  · exact List.prefix_refl _
  · exact List.prefix_append ..

theorem exists_cons_atom {a : Atom} (h : a.isReadable = true) :
    ∃ c cs, a.chars = c :: cs ∧ isBoundary c = false := by
  obtain ⟨c, cs, hn, hc⟩ := exists_cons_name (Atom.isReadable_name h)
  obtain ⟨t, ht⟩ := name_isPrefixOf_chars a
  exact ⟨c, cs ++ t, by rw [← ht, hn]; rfl, hc⟩

/-! ### The first alternative that fits -/

section
variable (d : Dialect) (element deeper : Reads Value) {cs k : List Char}

theorem nodeOf_string {s : String} (h : string cs = .ok (s, k)) :
    nodeOf d element deeper cs = .ok (.string s, k) := choice_of_ok (map_of_ok _ h)

theorem nodeOf_int {i : Int64} (hs : Backtracks string cs) (hf : Backtracks float cs)
    (h : int cs = .ok (i, k)) :
    nodeOf d element deeper cs = .ok (.int i, k) := by
  unfold nodeOf
  rw [choice_of_backtracks hs.map, choice_of_backtracks hf.map]
  exact choice_of_ok (map_of_ok _ h)

theorem nodeOf_character {c : Char} (hs : Backtracks string cs) (hw : NoWord cs)
    (h : character cs = .ok (c, k)) :
    nodeOf d element deeper cs = .ok (.char c, k) := by
  unfold nodeOf
  rw [choice_of_backtracks hs.map, choice_of_backtracks hw.float.map,
    choice_of_backtracks hw.int.map]
  exact choice_of_ok (map_of_ok _ h)

theorem nodeOf_bool {b : Bool} (hs : Backtracks string cs) (hf : Backtracks float cs)
    (hi : Backtracks int cs) (hc : Backtracks character cs) (h : bool cs = .ok (b, k)) :
    nodeOf d element deeper cs = .ok (.bool b, k) := by
  unfold nodeOf
  rw [choice_of_backtracks hs.map, choice_of_backtracks hf.map, choice_of_backtracks hi.map,
    choice_of_backtracks hc.map]
  exact choice_of_ok (map_of_ok _ h)

theorem nodeOf_nil (hs : Backtracks string cs) (hf : Backtracks float cs)
    (hi : Backtracks int cs) (hc : Backtracks character cs) (hb : Backtracks bool cs)
    (h : nil cs = .ok ((), k)) :
    nodeOf d element deeper cs = .ok (.nil, k) := by
  unfold nodeOf
  rw [choice_of_backtracks hs.map, choice_of_backtracks hf.map, choice_of_backtracks hi.map,
    choice_of_backtracks hc.map, choice_of_backtracks hb.map]
  exact choice_of_ok (map_of_ok _ h)

/-- What is no literal is an atom, a list or a quote. -/
theorem nodeOf_of_noWord (hs : Backtracks string cs) (hc : Backtracks character cs)
    (hw : NoWord cs) :
    nodeOf d element deeper cs =
      choice (.atom <$> atom d) [.list <$> list element,
        .quote <$> preceded (char '\'') (cut (quoted d deeper))] cs := by
  unfold nodeOf
  rw [choice_of_backtracks hs.map, choice_of_backtracks hw.float.map,
    choice_of_backtracks hw.int.map, choice_of_backtracks hc.map,
    choice_of_backtracks hw.bool.map, choice_of_backtracks hw.nil.map]

/-- Behind an opening parenthesis stands a list. -/
theorem nodeOf_paren :
    nodeOf d element deeper ('(' :: cs) =
      choice (.list <$> list element)
        [.quote <$> preceded (char '\'') (cut (quoted d deeper))] ('(' :: cs) := by
  have hstop : Stops ('(' :: cs) := .cons (by decide)
  rw [nodeOf_of_noWord d element deeper (backtracks_string (by rintro c ⟨⟩; decide))
    (backtracks_character (by rintro c ⟨⟩; decide)) (noWord_of_endsName hstop.endsName)]
  exact choice_of_backtracks (backtracks_atom d hstop).map

/-- Behind a quote mark that opens no character stands something quoted. -/
theorem nodeOf_mark (hc : Backtracks character ('\'' :: cs)) :
    nodeOf d element deeper ('\'' :: cs) = (.quote <$> cut (quoted d deeper)) cs := by
  have hstop : Stops ('\'' :: cs) := .cons (by decide)
  have hlist : Backtracks (list element) ('\'' :: cs) :=
    (backtracks_char (by rintro c ⟨⟩; decide)).preceded.between
  rw [nodeOf_of_noWord d element deeper (backtracks_string (by rintro c ⟨⟩; decide)) hc
    (noWord_of_endsName hstop.endsName), choice_of_backtracks (backtracks_atom d hstop).map,
    choice_of_backtracks hlist.map]
  have hmark : preceded (char '\'') (cut (quoted d deeper)) ('\'' :: cs) =
      cut (quoted d deeper) cs := preceded_of_ok (char_cons '\'' cs)
  cases hq : cut (quoted d deeper) cs with
  | ok x => exact (map_of_ok _ (hmark.trans hq)).trans (map_of_ok _ hq).symm
  | error e => exact (map_of_error _ (hmark.trans hq)).trans (map_of_error _ hq).symm

end

end HostLisp.Reader
