import HostLisp.Proofs.Reading.Depth

/-!
# The grammar of types

Which texts begin with a type, and where the others are broken, as rules: one for each form of a
type, and one for each place where a type ends too early.  Reading a type follows the rules,

    startsWithType_iff : StartsWithType d cs ty k ↔ TypeRead d cs ty k
    typeExpr_eq_error_iff : typeExpr d cs = .error f ↔ TypeFault d cs f.
-/

namespace HostLisp.Reader

/-! ### The rules -/

/-- The text does not go on with the name of a type. -/
def EndsTypeName (cs : List Char) : Prop := ∀ c ∈ cs.head?, isTypeNameChar c = false

/-- Neither a built-in type nor an opening bracket stands in front of the text. -/
structure NoBuiltin (cs : List Char) : Prop where
  keyword : ∀ e ∈ Kind.keywords, ∀ k, cs = e.1.toList ++ k → ∃ c ∈ k.head?, isTypeStop c = false
  map : ¬ ['m', 'a', 'p', '['] <+: cs
  slice : ¬ ['[', ']'] <+: cs

/-- A type in front of a text, and the text `k` behind it. -/
inductive TypeRead (d : Dialect) : List Char → Ty → List Char → Prop
  | keyword {word : String} {kind : Kind} {k : List Char} (h : (word, kind) ∈ Kind.keywords)
      (hk : ∀ c ∈ k.head?, isTypeStop c = true) : TypeRead d (word.toList ++ k) { kind } k
  | map {ks vs k : List Char} {key value : Ty} (hkey : TypeRead d ks key (']' :: vs))
      (hvalue : TypeRead d vs value k) :
      TypeRead d ('m' :: 'a' :: 'p' :: '[' :: ks) (.mapOf key value) k
  | slice {es k : List Char} {element : Ty} (h : TypeRead d es element k) :
      TypeRead d ('[' :: ']' :: es) (.sliceOf element) k
  | named {n k : List Char} {ty : Ty} (hne : n ≠ []) (hn : ∀ c ∈ n, isTypeNameChar c = true)
      (hk : EndsTypeName k) (hb : NoBuiltin (n ++ k)) (h : d.named (String.ofList n) = .known ty) :
      TypeRead d (n ++ k) ty k

/-- A text that begins with no type, and the fault in it. -/
inductive TypeFault (d : Dialect) : List Char → Fault → Prop
  | nothing {cs : List Char} (hb : NoBuiltin cs) (hk : EndsTypeName cs) :
      TypeFault d cs (Fault.unexpectedAt cs)
  | notAType {n k : List Char} (hne : n ≠ []) (hn : ∀ c ∈ n, isTypeNameChar c = true)
      (hk : EndsTypeName k) (hb : NoBuiltin (n ++ k)) (h : d.named (String.ofList n) = .other) :
      TypeFault d (n ++ k) ⟨.notAType n, n ++ k⟩
  | notFound {n k : List Char} (hne : n ≠ []) (hn : ∀ c ∈ n, isTypeNameChar c = true)
      (hk : EndsTypeName k) (hb : NoBuiltin (n ++ k)) (h : d.named (String.ofList n) = .unknown) :
      TypeFault d (n ++ k) ⟨.typeNotFound n, n ++ k⟩
  | key {ks : List Char} {f : Fault} (h : TypeFault d ks f) :
      TypeFault d ('m' :: 'a' :: 'p' :: '[' :: ks) f
  | bracket {ks r : List Char} {key : Ty} (hkey : TypeRead d ks key r)
      (hr : ∀ c ∈ r.head?, c ≠ ']') :
      TypeFault d ('m' :: 'a' :: 'p' :: '[' :: ks) (Fault.unexpectedAt r)
  | value {ks vs : List Char} {key : Ty} {f : Fault} (hkey : TypeRead d ks key (']' :: vs))
      (h : TypeFault d vs f) : TypeFault d ('m' :: 'a' :: 'p' :: '[' :: ks) f
  | element {es : List Char} {f : Fault} (h : TypeFault d es f) :
      TypeFault d ('[' :: ']' :: es) f

/-! ### Reading by the rules -/

theorem length_lt_append {w : List Char} (hw : w ≠ []) (k : List Char) :
    k.length < (w ++ k).length := by
  have hpos := List.length_pos_iff.2 hw
  rw [List.length_append]
  omega

theorem exists_of_afterWord? {w cs : List Char} {rest : Shorter cs}
    (h : afterWord? w cs = some rest) : cs = w ++ rest.1 := by
  unfold afterWord? at h
  split at h
  · next hw =>
    cases h
    exact (List.prefix_iff_eq_append.1 hw.2).symm
  · cases h

theorem exists_of_keywordType? {cs : List Char} {ty : Ty} {rest : Shorter cs}
    (h : keywordType? cs = some (ty, rest)) :
    ∃ word kind, (word, kind) ∈ Kind.keywords ∧ cs = word.toList ++ rest.1 ∧
      (∀ c ∈ rest.1.head?, isTypeStop c = true) ∧ ty = { kind } := by
  obtain ⟨⟨word, kind⟩, hmem, hfound⟩ := List.exists_of_findSome?_eq_some h
  dsimp only at hfound
  split at hfound
  · next rest' hword =>
    split at hfound
    · next hstop =>
      cases hfound
      refine ⟨word, kind, hmem, exists_of_afterWord? hword, ?_, rfl⟩
      intro c hc
      rw [Option.mem_def] at hc
      simpa [hc] using hstop
    · cases hfound
  · cases hfound

theorem all_head?_eq_false_iff {p : Char → Bool} {cs : List Char} :
    cs.head?.all p = false ↔ ∃ c ∈ cs.head?, p c = false := by
  cases cs with
  | nil => simp
  | cons c cs => simp

theorem keywordType?_eq_none_iff {cs : List Char} :
    keywordType? cs = none ↔
      ∀ e ∈ Kind.keywords, ∀ k, cs = e.1.toList ++ k → ∃ c ∈ k.head?, isTypeStop c = false := by
  unfold keywordType?
  rw [List.findSome?_eq_none_iff]
  constructor
  · intro h e he k hcs
    subst hcs
    obtain ⟨hlt, hword⟩ := afterWord?_append (keyword_ne_nil e he) k
    have hnone := h e he
    rw [← all_head?_eq_false_iff]
    simpa [hword] using hnone
  · intro h e he
    dsimp only
    cases hword : afterWord? e.1.toList cs with
    | none => rfl
    | some rest =>
      have hstop := h e he rest.1 (exists_of_afterWord? hword)
      rw [← all_head?_eq_false_iff] at hstop
      simp [hstop]

theorem NoBuiltin.typeExpr_eq {d : Dialect} {cs : List Char} (h : NoBuiltin cs) :
    typeExpr d cs = namedType d cs := by
  have hk := keywordType?_eq_none_iff.2 h.keyword
  have hm := afterWord?_eq_none h.map
  have hs := afterWord?_eq_none h.slice
  rw [typeExpr, hk, hm, hs]

/-- The name in front of a text, and what stands behind it. -/
theorem takeWhile_typeName {n k : List Char} (hn : ∀ c ∈ n, isTypeNameChar c = true)
    (hk : EndsTypeName k) : (n ++ k).takeWhile isTypeNameChar = n ∧
      (n ++ k).dropWhile isTypeNameChar = k := by
  rw [List.takeWhile_append_of_pos hn, List.dropWhile_append_of_pos hn]
  cases k with
  | nil => simp
  | cons c k => simp [hk c rfl]

theorem endsTypeName_dropWhile (cs : List Char) : EndsTypeName (cs.dropWhile isTypeNameChar) := by
  intro c hc
  have := List.head?_dropWhile_not isTypeNameChar cs
  rw [Option.mem_def.1 hc] at this
  simpa using this

section
variable (d : Dialect) {n k : List Char}

/-- A name that is looked up decides over the type. -/
theorem namedType_append (hne : n ≠ []) (hn : ∀ c ∈ n, isTypeNameChar c = true)
    (hk : EndsTypeName k) :
    (∀ ty, d.named (String.ofList n) = .known ty →
      ∃ h, namedType d (n ++ k) = .ok (ty, ⟨k, h⟩)) ∧
    (d.named (String.ofList n) = .other →
      namedType d (n ++ k) = .error ⟨.notAType n, n ++ k⟩) ∧
    (d.named (String.ofList n) = .unknown →
      namedType d (n ++ k) = .error ⟨.typeNotFound n, n ++ k⟩) := by
  obtain ⟨htake, hdrop⟩ := takeWhile_typeName hn hk
  have hlt := length_lt_append hne k
  unfold namedType
  split
  · next h => exact absurd (htake.symm.trans h) hne
  · next c n' h =>
    obtain rfl : n = c :: n' := htake.symm.trans h
    refine ⟨?_, ?_, ?_⟩
    · intro ty hty
      exact ⟨hlt, by simp only [hty, hdrop]⟩
    · intro hother
      simp only [hother]
    · intro hunknown
      simp only [hunknown]

theorem namedType_nothing {cs : List Char} (h : EndsTypeName cs) :
    namedType d cs = .error (Fault.unexpectedAt cs) := by
  have htake : cs.takeWhile isTypeNameChar = [] := (takeWhile_typeName (n := []) (by simp) h).1
  unfold namedType
  split
  · rfl
  · next c n hc =>
    rw [htake] at hc
    cases hc

end

theorem TypeRead.startsWithType {d : Dialect} {cs k : List Char} {ty : Ty}
    (h : TypeRead d cs ty k) : StartsWithType d cs ty k := by
  induction h with
  | keyword h hk => exact startsWithType_keyword d _ h hk
  | map hkey hvalue ihkey ihvalue => exact ihkey.map ihvalue
  | slice h ih => exact ih.slice
  | named hne hn hk hb h =>
    obtain ⟨hlt, hread⟩ := (namedType_append d hne hn hk).1 _ h
    exact ⟨hlt, hb.typeExpr_eq.trans hread⟩

theorem TypeRead.length_lt {d : Dialect} {cs k : List Char} {ty : Ty} (h : TypeRead d cs ty k) :
    k.length < cs.length := h.startsWithType.1

theorem TypeFault.typeExpr_eq {d : Dialect} {cs : List Char} {f : Fault} (h : TypeFault d cs f) :
    typeExpr d cs = .error f := by
  have hmap : ∀ ks, keywordType? ('m' :: 'a' :: 'p' :: '[' :: ks) = none := fun ks =>
    keywordType?_eq_none (by simp [Kind.keywords, List.cons_prefix_cons])
  induction h with
  | nothing hb hk => rw [hb.typeExpr_eq, namedType_nothing d hk]
  | notAType hne hn hk hb h => rw [hb.typeExpr_eq, (namedType_append d hne hn hk).2.1 h]
  | notFound hne hn hk hb h => rw [hb.typeExpr_eq, (namedType_append d hne hn hk).2.2 h]
  | @key ks f h ih =>
    obtain ⟨hm, hm'⟩ := afterWord?_append (w := ['m', 'a', 'p', '[']) (by simp) ks
    simp only [List.cons_append, List.nil_append] at hm'
    rw [typeExpr, hmap, hm']
    simp only [ih]
  | @bracket ks r key hkey hr =>
    obtain ⟨hm, hm'⟩ := afterWord?_append (w := ['m', 'a', 'p', '[']) (by simp) ks
    obtain ⟨hlt, hkey⟩ := hkey.startsWithType
    have hb : afterWord? [']'] r = none := afterWord?_eq_none (by
      intro hp
      obtain ⟨t, rfl⟩ := hp
      exact hr ']' rfl rfl)
    simp only [List.cons_append, List.nil_append] at hm'
    rw [typeExpr, hmap, hm']
    simp only [hkey, hb]
  | @value ks vs key f hkey h ih =>
    obtain ⟨hm, hm'⟩ := afterWord?_append (w := ['m', 'a', 'p', '[']) (by simp) ks
    obtain ⟨hlt, hkey⟩ := hkey.startsWithType
    obtain ⟨hb, hb'⟩ := afterWord?_append (w := [']']) (by simp) vs
    simp only [List.cons_append, List.nil_append] at hm' hb'
    rw [typeExpr, hmap, hm']
    simp only [hkey, hb', ih]
  | @element es f h ih =>
    have hk : keywordType? ('[' :: ']' :: es) = none :=
      keywordType?_eq_none (by simp [Kind.keywords, List.cons_prefix_cons])
    have hm : afterWord? ['m', 'a', 'p', '['] ('[' :: ']' :: es) = none :=
      afterWord?_eq_none (by simp [List.cons_prefix_cons])
    obtain ⟨hs, hs'⟩ := afterWord?_append (w := ['[', ']']) (by simp) es
    simp only [List.cons_append, List.nil_append] at hs'
    rw [typeExpr, hk, hm, hs']
    simp only [ih]

/-- Every text either begins with a type or is broken in one of the ways. -/
theorem typeRead_or_typeFault (d : Dialect) (cs : List Char) :
    (∃ ty k, TypeRead d cs ty k) ∨ ∃ f, TypeFault d cs f := by
  induction hlen : cs.length using Nat.strongRecOn generalizing cs with
  | ind m ih =>
    subst hlen
    cases hk : keywordType? cs with
    | some found =>
      obtain ⟨word, kind, hmem, hcs, hstop, -⟩ := exists_of_keywordType? hk
      rw [hcs]
      exact .inl ⟨_, _, .keyword hmem hstop⟩
    | none =>
      by_cases hm : ['m', 'a', 'p', '['] <+: cs
      · obtain ⟨ks, rfl⟩ := hm
        have hlt := length_lt_append (w := ['m', 'a', 'p', '[']) (by simp) ks
        obtain ⟨key, r, hkey⟩ | ⟨f, hf⟩ := ih ks.length hlt ks rfl
        · by_cases hr : ∃ vs, r = ']' :: vs
          · obtain ⟨vs, rfl⟩ := hr
            have hvs : vs.length < ks.length := Nat.lt_of_succ_lt hkey.length_lt
            obtain ⟨value, k, hvalue⟩ | ⟨f, hf⟩ := ih vs.length (Nat.lt_trans hvs hlt) vs rfl
            · exact .inl ⟨_, _, .map hkey hvalue⟩
            · exact .inr ⟨_, .value hkey hf⟩
          · exact .inr ⟨_, .bracket hkey (head_ne_of_not_cons hr)⟩
        · exact .inr ⟨_, .key hf⟩
      by_cases hs : ['[', ']'] <+: cs
      · obtain ⟨es, rfl⟩ := hs
        have hlt := length_lt_append (w := ['[', ']']) (by simp) es
        obtain ⟨element, k, h⟩ | ⟨f, hf⟩ := ih es.length hlt es rfl
        · exact .inl ⟨_, _, .slice h⟩
        · exact .inr ⟨_, .element hf⟩
      have hb : NoBuiltin cs := ⟨keywordType?_eq_none_iff.1 hk, hm, hs⟩
      have hrest := endsTypeName_dropWhile cs
      have hsplit := List.takeWhile_append_dropWhile (p := isTypeNameChar) (l := cs)
      by_cases hne : cs.takeWhile isTypeNameChar = []
      · rw [hne, List.nil_append] at hsplit
        rw [hsplit] at hrest
        exact .inr ⟨_, .nothing hb hrest⟩
      · have hn : ∀ c ∈ cs.takeWhile isTypeNameChar, isTypeNameChar c = true :=
          fun c hc => List.mem_takeWhile_imp hc
        rw [← hsplit] at hb ⊢
        cases hd : d.named (String.ofList (cs.takeWhile isTypeNameChar)) with
        | known ty => exact .inl ⟨_, _, .named hne hn hrest hb hd⟩
        | other => exact .inr ⟨_, .notAType hne hn hrest hb hd⟩
        | unknown => exact .inr ⟨_, .notFound hne hn hrest hb hd⟩

theorem startsWithType_iff {d : Dialect} {cs k : List Char} {ty : Ty} :
    StartsWithType d cs ty k ↔ TypeRead d cs ty k := by
  refine ⟨?_, TypeRead.startsWithType⟩
  intro h
  obtain ⟨hlt, h⟩ := h
  obtain ⟨ty', k', hread⟩ | ⟨f, hf⟩ := typeRead_or_typeFault d cs
  · obtain ⟨hlt', hread'⟩ := hread.startsWithType
    rw [h] at hread'
    cases hread'
    exact hread
  · rw [hf.typeExpr_eq] at h
    cases h

theorem typeExpr_eq_error_iff {d : Dialect} {cs : List Char} {f : Fault} :
    typeExpr d cs = .error f ↔ TypeFault d cs f := by
  refine ⟨?_, TypeFault.typeExpr_eq⟩
  intro h
  obtain ⟨ty, k, hread⟩ | ⟨f', hf⟩ := typeRead_or_typeFault d cs
  · obtain ⟨hlt, hread⟩ := hread.startsWithType
    rw [h] at hread
    cases hread
  · rw [hf.typeExpr_eq] at h
    cases h
    exact hf

theorem TypeRead.suffix {d : Dialect} {cs k : List Char} {ty : Ty} (h : TypeRead d cs ty k) :
    k <:+ cs := by
  induction h with
  | keyword h hk => exact List.suffix_append ..
  | map hkey hvalue ihkey ihvalue =>
    have hvs := (List.suffix_cons ..).trans ihkey
    exact (ihvalue.trans hvs).trans (List.suffix_append ['m', 'a', 'p', '['] _)
  | slice h ih => exact ih.trans (List.suffix_append ['[', ']'] _)
  | named hne hn hk hb h => exact List.suffix_append ..

end HostLisp.Reader
