import HostLisp.Proofs.Reading.Layout

/-!
# Types read back

The text of a readable kind is read as that kind, in every dialect: its keywords come before the
names of a dialect, and it ends where a stop follows.  An annotation is `::`, such a text, and a
question mark if nil is allowed.
-/

namespace HostLisp.Reader

/-! ### Words -/

theorem afterWord?_append {w : List Char} (hw : w ≠ []) (rest : List Char) :
    ∃ h, afterWord? w (w ++ rest) = some ⟨rest, h⟩ := by
  have hp : w ≠ [] ∧ w <+: w ++ rest := ⟨hw, List.prefix_append ..⟩
  refine ⟨by have := List.length_pos_iff.2 hw; simp only [List.length_append]; omega, ?_⟩
  simp [afterWord?, hp]

theorem afterWord?_eq_none {w cs : List Char} (h : ¬ w <+: cs) : afterWord? w cs = none := by
  simp [afterWord?, h]

/-- No keyword begins with another one. -/
theorem keyword_eq_of_isPrefixOf :
    ∀ e ∈ Kind.keywords, ∀ e' ∈ Kind.keywords, e.1.toList <+: e'.1.toList → e = e' := by
  decide

theorem keyword_ne_nil : ∀ e ∈ Kind.keywords, e.1.toList ≠ [] := by decide

/-- A search that succeeds for one element only. -/
theorem findSome?_of_unique {α β : Type} {f : α → Option β} {a : α} {b : β} (hb : f a = some b) :
    {l : List α} → a ∈ l → (∀ x ∈ l, x = a ∨ f x = none) → l.findSome? f = some b
  | x :: l, ha, hu => by
    obtain rfl | hx := hu x List.mem_cons_self
    · rw [List.findSome?_cons, hb]
    · have hne : a ≠ x := by
        rintro rfl
        rw [hx] at hb
        cases hb
      rw [List.findSome?_cons, hx]
      exact findSome?_of_unique hb (List.mem_of_ne_of_mem hne ha) fun y hy =>
        hu y (List.mem_cons_of_mem _ hy)

/-- At most one keyword is found in front of a text. -/
theorem keywordType?_append {word : String} {kind : Kind} (hk : (word, kind) ∈ Kind.keywords)
    {rest : List Char} (hrest : ∀ c ∈ rest.head?, isTypeStop c = true) :
    ∃ h, keywordType? (word.toList ++ rest) = some ({ kind }, ⟨rest, h⟩) := by
  obtain ⟨h, hword⟩ := afterWord?_append (keyword_ne_nil _ hk) rest
  have hstop : rest.head?.all isTypeStop = true := by
    cases rest with
    | nil => rfl
    | cons c cs => exact hrest c rfl
  refine ⟨h, findSome?_of_unique ?_ hk fun e he => ?_⟩
  · simp only [hword, hstop, if_true]
  · by_cases hp : e.1.toList <+: word.toList ++ rest
    · left
      obtain hpre | hpre := List.prefix_or_prefix_of_prefix hp (List.prefix_append word.toList rest)
      · exact keyword_eq_of_isPrefixOf _ he _ hk hpre
      · exact (keyword_eq_of_isPrefixOf _ hk _ he hpre).symm
    · right
      simp only [afterWord?_eq_none hp]

/-- A text that begins like no keyword. -/
theorem keywordType?_eq_none {cs : List Char}
    (h : ∀ e ∈ Kind.keywords, ¬ e.1.toList <+: cs) : keywordType? cs = none := by
  unfold keywordType?
  rw [List.findSome?_eq_none_iff]
  rintro ⟨word, kind⟩ he
  simp only [afterWord?_eq_none (h _ he)]

/-! ### Types -/

/-- In front of the text stands a type, and `rest` behind it. -/
def StartsWithType (d : Dialect) (cs : List Char) (ty : Ty) (rest : List Char) : Prop :=
  ∃ h, typeExpr d cs = .ok (ty, ⟨rest, h⟩)

theorem startsWithType_keyword (d : Dialect) (word : String) {kind : Kind}
    (hk : (word, kind) ∈ Kind.keywords) {rest : List Char}
    (hrest : ∀ c ∈ rest.head?, isTypeStop c = true) :
    StartsWithType d (word.toList ++ rest) { kind } rest := by
  obtain ⟨h, hw⟩ := keywordType?_append hk hrest
  refine ⟨h, ?_⟩
  rw [typeExpr, hw]

theorem StartsWithType.slice {d : Dialect} {es rest : List Char} {element : Ty}
    (he : StartsWithType d es element rest) :
    StartsWithType d ('[' :: ']' :: es) (.sliceOf element) rest := by
  obtain ⟨h, he⟩ := he
  have hk : keywordType? ('[' :: ']' :: es) = none :=
    keywordType?_eq_none (by simp [Kind.keywords, List.cons_prefix_cons])
  have hm : afterWord? ['m', 'a', 'p', '['] ('[' :: ']' :: es) = none :=
    afterWord?_eq_none (by simp [List.cons_prefix_cons])
  obtain ⟨hs, hs'⟩ := afterWord?_append (w := ['[', ']']) (by simp) es
  simp only [List.cons_append, List.nil_append] at hs'
  refine ⟨by simp only [List.length_cons]; omega, ?_⟩
  rw [typeExpr, hk, hm, hs']
  simp only [he]

theorem StartsWithType.map {d : Dialect} {ks vs rest : List Char} {key value : Ty}
    (hkey : StartsWithType d ks key (']' :: vs)) (hvalue : StartsWithType d vs value rest) :
    StartsWithType d ('m' :: 'a' :: 'p' :: '[' :: ks) (.mapOf key value) rest := by
  obtain ⟨hk, hkey⟩ := hkey
  obtain ⟨hv, hvalue⟩ := hvalue
  have hnone : keywordType? ('m' :: 'a' :: 'p' :: '[' :: ks) = none :=
    keywordType?_eq_none (by simp [Kind.keywords, List.cons_prefix_cons])
  obtain ⟨hm, hm'⟩ := afterWord?_append (w := ['m', 'a', 'p', '[']) (by simp) ks
  obtain ⟨hc, hc'⟩ := afterWord?_append (w := [']']) (by simp) vs
  simp only [List.cons_append, List.nil_append] at hm' hc'
  have hlen : rest.length < ('m' :: 'a' :: 'p' :: '[' :: ks).length := by
    simp only [List.length_cons] at hk ⊢
    omega
  refine ⟨hlen, ?_⟩
  rw [typeExpr, hnone, hm']
  simp only [hkey, hc', hvalue]

mutual
/-- The text of a readable kind, in front of a stop or the end, is read as that kind. -/
theorem startsWithType_kind (d : Dialect) : (kind : Kind) → kind.isReadable = true →
    ∀ {rest : List Char}, (∀ c ∈ rest.head?, isTypeStop c = true) →
      StartsWithType d (kind.chars ++ rest) { kind } rest
  | .any, _, _, hr => startsWithType_keyword d "any" (by decide) hr
  | .bool, _, _, hr => startsWithType_keyword d "bool" (by decide) hr
  | .int, _, _, hr => startsWithType_keyword d "int" (by decide) hr
  | .float, _, _, hr => startsWithType_keyword d "float" (by decide) hr
  | .string, _, _, hr => startsWithType_keyword d "string" (by decide) hr
  | .time, _, _, hr => startsWithType_keyword d "time" (by decide) hr
  | .duration, _, _, hr => startsWithType_keyword d "duration" (by decide) hr
  | .atom, _, _, hr => startsWithType_keyword d "atom" (by decide) hr
  | .list, _, _, hr => startsWithType_keyword d "list" (by decide) hr
  | .quote, _, _, hr => startsWithType_keyword d "quote" (by decide) hr
  | .dict, _, _, hr => startsWithType_keyword d "dict" (by decide) hr
  | .alias _, h, _, _ => by simp [Kind.isReadable] at h
  | .slice element, h, _, hr => by
    rw [Kind.isReadable] at h
    exact (startsWithType_plain d element h hr).slice
  | .map key value, h, rest, hr => by
    rw [Kind.isReadable, Bool.and_eq_true] at h
    have hvalue := startsWithType_plain d value h.2 hr
    have hkey : StartsWithType d (key.chars ++ (']' :: (value.chars ++ rest))) key
        (']' :: (value.chars ++ rest)) :=
      startsWithType_plain d key h.1 (by rintro c ⟨⟩; decide)
    have htext : (Kind.map key value).chars ++ rest =
        'm' :: 'a' :: 'p' :: '[' :: (key.chars ++ (']' :: (value.chars ++ rest))) := by
      simp [Kind.chars]
    rw [htext]
    exact hkey.map hvalue
theorem startsWithType_plain (d : Dialect) : (ty : Ty) → ty.isPlain = true →
    ∀ {rest : List Char}, (∀ c ∈ rest.head?, isTypeStop c = true) →
      StartsWithType d (ty.chars ++ rest) ty rest
  | ⟨kind, optional⟩, h, rest, hr => by
    rw [Ty.isPlain, Bool.and_eq_true, Bool.not_eq_true'] at h
    obtain ⟨rfl, hk⟩ := h
    have htext : (Ty.mk kind false).chars ++ rest = kind.chars ++ rest := by simp [Ty.chars]
    rw [htext]
    exact startsWithType_kind d kind hk hr
end

/-! ### Annotations -/

theorem isTypeStop_of_isBoundary {c : Char} (h : isBoundary c = true) : isTypeStop c = true := by
  simp only [isBoundary, isTypeStop, Bool.or_eq_true, List.contains_eq_mem, List.mem_cons,
    List.not_mem_nil, or_false, decide_eq_true_eq] at h ⊢
  grind

/-- No colon, no annotation. -/
theorem annotation_of_no_colon (d : Dialect) {rest : List Char}
    (hrest : ∀ c ∈ rest.head?, c ≠ ':') : annotation d rest = .ok (none, rest) := by
  unfold annotation
  split
  · next ts => exact absurd rfl (hrest ':' rfl)
  · rfl

/-- The annotation of a readable type, in front of a boundary. -/
theorem annotation_append (d : Dialect) {ty : Ty} (hty : ty.kind.isReadable = true)
    {rest : List Char} (hrest : ∀ c ∈ rest.head?, isBoundary c = true) :
    annotation d (':' :: ':' :: (ty.chars ++ rest)) = .ok (some ty, rest) := by
  obtain ⟨kind, optional⟩ := ty
  cases optional with
  | true =>
    have htext : (Ty.mk kind true).chars ++ rest = kind.chars ++ '?' :: rest := by
      simp [Ty.chars]
    have hmark : ∀ c ∈ ('?' :: rest).head?, isTypeStop c = true := by rintro c ⟨⟩; decide
    obtain ⟨h, ht⟩ := startsWithType_kind d kind hty hmark
    rw [htext]
    simp only [ht, annotation]
    rfl
  | false =>
    have htext : (Ty.mk kind false).chars ++ rest = kind.chars ++ rest := by simp [Ty.chars]
    obtain ⟨h, ht⟩ := startsWithType_kind d kind hty fun c hc =>
      isTypeStop_of_isBoundary (hrest c hc)
    rw [htext]
    simp only [ht, annotation]
    -- a question mark is no boundary, so the flag is not read
    split
    · next rest' => exact absurd (hrest '?' rfl) (by decide)
    · rfl

end HostLisp.Reader
