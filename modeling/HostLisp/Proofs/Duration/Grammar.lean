import HostLisp.Time.DurationText

/-!
# The grammar of durations

A duration is an optional sign with `0` or with one or more components behind it.  A component is
digits, or digits around a point of which either side may be empty but not both, and the name of a
unit.  `m` is a name and so is `ms`; but the next component begins with a digit or a point, so the
reader takes a text apart in the only way there is:

    spells_iff : Spells negative parts cs ↔ (Decimal.splitSign cs).1 = negative ∧
      Magnitude parts (Decimal.splitSign cs).2
    magnitude_iff : Magnitude parts cs ↔ cs = ['0'] ∧ parts = [] ∨
      parts ≠ [] ∧ (∀ c ∈ parts, c.HasDigits) ∧ readComponents? cs = some parts
-/

namespace HostLisp.Duration

/-! ### The grammar -/

/-- The units by name, with their nanoseconds. -/
def units : List (List Char × Nat) :=
  [(['n', 's'], 1), (['u', 's'], 1_000), (['µ', 's'], 1_000), (['μ', 's'], 1_000),
    (['m', 's'], 1_000_000), (['s'], 1_000_000_000), (['m'], 60 * 1_000_000_000),
    (['h'], 3600 * 1_000_000_000)]

/-- A run of digits, possibly of none. -/
def IsDigits (cs : List Char) : Prop := ∀ c ∈ cs, c.isDigit = true

namespace Component

/-- There is a digit on one side of the point. -/
def HasDigits (c : Component) : Prop := c.whole ≠ [] ∨ c.fraction ≠ []

/-- How a component is written, without a point or with one. -/
inductive Written : Component → List Char → Prop where
  | whole {ds u : List Char} {n : Nat} : IsDigits ds → (u, n) ∈ units →
      Written ⟨ds, [], n⟩ (ds ++ u)
  | point {ds fs u : List Char} {n : Nat} : IsDigits ds → IsDigits fs → (u, n) ∈ units →
      Written ⟨ds, fs, n⟩ (ds ++ '.' :: (fs ++ u))

end Component

/-- Components one behind the other. -/
inductive Row : List Component → List Char → Prop where
  | nil : Row [] []
  | cons {c : Component} {parts : List Component} {w r : List Char} :
      c.Written w → Row parts r → Row (c :: parts) (w ++ r)

/-- What stands behind the sign. -/
inductive Magnitude : List Component → List Char → Prop where
  | zero : Magnitude [] ['0']
  | row {parts : List Component} {cs : List Char} : parts ≠ [] → (∀ c ∈ parts, c.HasDigits) →
      Row parts cs → Magnitude parts cs

/-- A whole text: whether it has a minus sign, its components and its characters. -/
inductive Spells : Bool → List Component → List Char → Prop where
  | unsigned {parts : List Component} {cs : List Char} : Magnitude parts cs →
      Spells false parts cs
  | plus {parts : List Component} {cs : List Char} : Magnitude parts cs →
      Spells false parts ('+' :: cs)
  | minus {parts : List Component} {cs : List Char} : Magnitude parts cs →
      Spells true parts ('-' :: cs)

variable {c : Component} {parts : List Component} {cs w r u : List Char} {n : Nat}

/-! ### Digits -/

theorem isDigits_takeWhile (cs : List Char) : IsDigits (cs.takeWhile Char.isDigit) :=
  List.all_eq_true.1 List.all_takeWhile

/-- A run of digits ends where something else stands. -/
theorem IsDigits.span {ds k : List Char} (hds : IsDigits ds)
    (hk : ∀ c ∈ k.head?, c.isDigit = false) :
    (ds ++ k).takeWhile Char.isDigit = ds ∧ (ds ++ k).dropWhile Char.isDigit = k := by
  rw [List.takeWhile_append_of_pos hds, List.dropWhile_append_of_pos hds]
  cases k with
  | nil => exact ⟨List.append_nil ds, rfl⟩
  | cons c k =>
    have hc : ¬ c.isDigit = true := by simp [hk c rfl]
    rw [List.takeWhile_cons_of_neg hc, List.dropWhile_cons_of_neg hc, List.append_nil]
    exact ⟨rfl, rfl⟩

theorem splitFraction_point (cs : List Char) :
    Decimal.splitFraction ('.' :: cs) = (cs.takeWhile Char.isDigit, cs.dropWhile Char.isDigit) :=
  rfl

theorem splitFraction_of_ne {d : Char} (hd : d ≠ '.') (cs : List Char) :
    Decimal.splitFraction (d :: cs) = ([], d :: cs) := by
  unfold Decimal.splitFraction
  split
  · next heq =>
    cases heq
    exact absurd rfl hd
  · rfl

/-! ### Units -/

theorem readUnit?_sound (h : readUnit? cs = some (n, r)) : ∃ u, (u, n) ∈ units ∧ cs = u ++ r := by
  unfold readUnit? at h
  split at h
  case h_9 => cases h
  case h_6 | h_7 | h_8 =>
    cases h
    exact ⟨[_], by simp [units], rfl⟩
  all_goals
    cases h
    exact ⟨[_, _], by simp [units], rfl⟩

/-- A name is read in front of anything that does not go on with an `s`. -/
theorem readUnit?_append (hu : (u, n) ∈ units) (hr : r.head? ≠ some 's') :
    readUnit? (u ++ r) = some (n, r) := by
  simp only [units, List.mem_cons, Prod.mk.injEq, List.not_mem_nil, or_false] at hu
  obtain ⟨rfl, rfl⟩ | ⟨rfl, rfl⟩ | ⟨rfl, rfl⟩ | ⟨rfl, rfl⟩ | ⟨rfl, rfl⟩ | ⟨rfl, rfl⟩ |
    ⟨rfl, rfl⟩ | ⟨rfl, rfl⟩ := hu
  case inr.inr.inr.inr.inr.inr.inl =>
    -- `m` is the beginning of `ms`.
    cases r with
    | nil => rfl
    | cons c r =>
      have hc : c ≠ 's' := fun h => hr (congrArg some h)
      simp [readUnit?, hc]
  all_goals rfl

/-- Names of units begin with a letter. -/
theorem head_unit (hu : (u, n) ∈ units) (k : List Char) :
    ∃ c t, u ++ k = c :: t ∧ c.isDigit = false ∧ c ≠ '.' := by
  have hall : ∀ p ∈ units, ∃ c t, p.1 = c :: t ∧ c.isDigit = false ∧ c ≠ '.' := by
    simp [units]
  obtain ⟨c, t, rfl, hc⟩ := hall _ hu
  exact ⟨c, t ++ k, rfl, hc⟩

/-! ### Components -/

namespace Component

theorem Written.isDigits (h : c.Written w) : IsDigits c.whole ∧ IsDigits c.fraction := by
  cases h with
  | whole hds _ => exact ⟨hds, nofun⟩
  | point hds hfs _ => exact ⟨hds, hfs⟩

theorem Written.unit (h : c.Written w) : ∃ u, (u, c.unit) ∈ units := by
  cases h with
  | whole _ hu => exact ⟨_, hu⟩
  | point _ _ hu => exact ⟨_, hu⟩

/-- A component with digits begins with one or with the point. -/
theorem Written.head (h : c.Written w) (hc : c.HasDigits) (k : List Char) :
    ∃ d t, w ++ k = d :: t ∧ (d.isDigit = true ∨ d = '.') := by
  cases h with
  | @whole ds u n hds hu =>
    obtain ⟨d, t, rfl⟩ := List.exists_cons_of_ne_nil (hc.resolve_right fun h => h rfl)
    exact ⟨d, t ++ u ++ k, rfl, .inl (hds d List.mem_cons_self)⟩
  | @point ds fs u n hds hfs hu =>
    cases ds with
    | nil => exact ⟨'.', fs ++ u ++ k, rfl, .inr rfl⟩
    | cons d t => exact ⟨d, t ++ '.' :: (fs ++ u) ++ k, rfl, .inl (hds d List.mem_cons_self)⟩

end Component

theorem readComponent?_sound (h : readComponent? cs = some (c, r)) :
    ∃ w, c.Written w ∧ cs = w ++ r := by
  have hsplit := List.takeWhile_append_dropWhile (p := Char.isDigit) (l := cs)
  have hds := isDigits_takeWhile cs
  obtain ⟨⟨n, r'⟩, hu, he⟩ := Option.map_eq_some_iff.1 h
  obtain ⟨rfl, rfl⟩ := Prod.mk.inj he
  unfold Decimal.splitFraction at hu ⊢
  split at hu
  · next t hrest =>
    obtain ⟨u, hmem, hu⟩ := readUnit?_sound hu
    have hsplit' := List.takeWhile_append_dropWhile (p := Char.isDigit) (l := t)
    refine ⟨_, .point hds (isDigits_takeWhile t) hmem, ?_⟩
    rw [List.append_assoc, List.cons_append, List.append_assoc, ← hu, hsplit', ← hrest, hsplit]
  · obtain ⟨u, hmem, hu⟩ := readUnit?_sound hu
    refine ⟨_, .whole hds hmem, ?_⟩
    rw [List.append_assoc, ← hu, hsplit]

theorem readComponent?_append (h : c.Written w) (hr : r.head? ≠ some 's') :
    readComponent? (w ++ r) = some (c, r) := by
  cases h with
  | @whole ds u n hds hu =>
    have hunit := readUnit?_append hu hr
    obtain ⟨d, t, heq, hdigit, hpoint⟩ := head_unit hu r
    rw [heq] at hunit
    obtain ⟨htake, hdrop⟩ := hds.span (k := d :: t) (by simp [hdigit])
    rw [List.append_assoc, heq]
    unfold readComponent?
    rw [htake, hdrop, splitFraction_of_ne hpoint]
    show (readUnit? (d :: t)).map _ = _
    rw [hunit]
    rfl
  | @point ds fs u n hds hfs hu =>
    have hunit := readUnit?_append hu hr
    obtain ⟨d, t, heq, hdigit, -⟩ := head_unit hu r
    rw [heq] at hunit
    obtain ⟨htake, hdrop⟩ := hds.span (k := '.' :: (fs ++ d :: t)) (by simp)
    obtain ⟨htake', hdrop'⟩ := hfs.span (k := d :: t) (by simp [hdigit])
    rw [List.append_assoc, List.cons_append, List.append_assoc, heq]
    unfold readComponent?
    rw [htake, hdrop, splitFraction_point, htake', hdrop']
    show (readUnit? (d :: t)).map _ = _
    rw [hunit]
    rfl

/-! ### Rows of components -/

theorem readComponents?_nil : readComponents? [] = some [] := by
  rw [readComponents?]
  rfl

theorem readComponents?_cons (h : readComponent? cs = some (c, r)) :
    readComponents? cs = (readComponents? r).map (c :: ·) := by
  have hne : cs.isEmpty = false := by
    have hlt := length_readComponent? h
    cases cs with
    | nil => cases hlt
    | cons => rfl
  rw [readComponents?, hne]
  simp only [Bool.false_eq_true, ↓reduceIte]
  split
  · next hnone => cases hnone.symm.trans h
  · next heq =>
    cases heq.symm.trans h
    rfl

theorem readComponents?_sound (h : readComponents? cs = some parts) : Row parts cs := by
  induction cs using readComponents?.induct generalizing parts with
  | case1 cs hempty =>
    obtain rfl := List.isEmpty_iff.1 hempty
    rw [readComponents?_nil] at h
    cases h
    exact .nil
  | case2 cs hne hnone =>
    rw [readComponents?, if_neg hne] at h
    split at h
    · cases h
    · next hsome => cases hnone.symm.trans hsome
  | case3 cs hne c rest hread hlt ih =>
    rw [readComponents?_cons hread] at h
    obtain ⟨parts, hparts, rfl⟩ := Option.map_eq_some_iff.1 h
    obtain ⟨w, hw, rfl⟩ := readComponent?_sound hread
    exact .cons hw (ih hparts)

/-- What a row of components with digits begins with, if anything. -/
theorem Row.head (h : Row parts cs) (hdigits : ∀ c ∈ parts, c.HasDigits) :
    cs = [] ∧ parts = [] ∨ ∃ d t, cs = d :: t ∧ (d.isDigit = true ∨ d = '.') := by
  cases h with
  | nil => exact .inl ⟨rfl, rfl⟩
  | cons hw _ => exact .inr (hw.head (hdigits _ List.mem_cons_self) _)

theorem Row.written (h : Row parts cs) : ∀ c ∈ parts, ∃ w, c.Written w := by
  induction h with
  | nil => nofun
  | cons hw _ ih => exact List.forall_mem_cons.2 ⟨⟨_, hw⟩, ih⟩

theorem Row.read_eq (h : Row parts cs) (hdigits : ∀ c ∈ parts, c.HasDigits) :
    readComponents? cs = some parts := by
  induction h with
  | nil => exact readComponents?_nil
  | @cons c parts w r hw hr ih =>
    obtain ⟨-, hdigits⟩ := List.forall_mem_cons.1 hdigits
    have hhead : r.head? ≠ some 's' := by
      obtain ⟨rfl, -⟩ | ⟨d, t, rfl, hd⟩ := hr.head hdigits
      · nofun
      · rintro ⟨⟩
        cases hd <;> contradiction
    rw [readComponents?_cons (readComponent?_append hw hhead), ih hdigits]
    rfl

/-! ### Whole texts -/

theorem magnitude_iff :
    Magnitude parts cs ↔ cs = ['0'] ∧ parts = [] ∨
      parts ≠ [] ∧ (∀ c ∈ parts, c.HasDigits) ∧ readComponents? cs = some parts := by
  constructor
  · intro h
    cases h with
    | zero => exact .inl ⟨rfl, rfl⟩
    | row hne hdigits hrow => exact .inr ⟨hne, hdigits, hrow.read_eq hdigits⟩
  · rintro (⟨rfl, rfl⟩ | ⟨hne, hdigits, hread⟩)
    · exact .zero
    · exact .row hne hdigits (readComponents?_sound hread)

/-- There is only one way to take a magnitude apart. -/
theorem Magnitude.unique {parts' : List Component} (h : Magnitude parts cs)
    (h' : Magnitude parts' cs) : parts = parts' := by
  have hzero : readComponents? ['0'] = none := by
    rw [readComponents?]
    rfl
  obtain ⟨rfl, rfl⟩ | ⟨-, -, hread⟩ := magnitude_iff.1 h
  · obtain ⟨-, rfl⟩ | ⟨-, -, hread'⟩ := magnitude_iff.1 h'
    · rfl
    · cases hzero.symm.trans hread'
  · obtain ⟨rfl, rfl⟩ | ⟨-, -, hread'⟩ := magnitude_iff.1 h'
    · cases hzero.symm.trans hread
    · exact Option.some.inj (hread.symm.trans hread')

/-- A magnitude has no sign of its own. -/
theorem Magnitude.splitSign_eq (h : Magnitude parts cs) :
    Decimal.splitSign cs = (false, cs) := by
  have hhead : ∃ d t, cs = d :: t ∧ (d.isDigit = true ∨ d = '.') := by
    cases h with
    | zero => exact ⟨'0', [], rfl, .inl rfl⟩
    | row hne hdigits hrow => exact (hrow.head hdigits).resolve_left fun h => hne h.2
  obtain ⟨d, t, rfl, hd⟩ := hhead
  unfold Decimal.splitSign
  split
  · next heq =>
    cases heq
    cases hd <;> contradiction
  · next heq =>
    cases heq
    cases hd <;> contradiction
  · rfl

theorem spells_iff {negative : Bool} :
    Spells negative parts cs ↔ (Decimal.splitSign cs).1 = negative ∧
      Magnitude parts (Decimal.splitSign cs).2 := by
  constructor
  · intro h
    cases h with
    | unsigned h =>
      rw [h.splitSign_eq]
      exact ⟨rfl, h⟩
    | plus h | minus h => exact ⟨rfl, h⟩
  · unfold Decimal.splitSign
    split
    · rintro ⟨rfl, h⟩
      exact .minus h
    · rintro ⟨rfl, h⟩
      exact .plus h
    · rintro ⟨rfl, h⟩
      exact .unsigned h

theorem Spells.unique {negative negative' : Bool} {parts' : List Component}
    (h : Spells negative parts cs) (h' : Spells negative' parts' cs) : parts = parts' :=
  (spells_iff.1 h).2.unique (spells_iff.1 h').2

/-- The components are the row at the end of the text; a zero has an empty one behind it. -/
theorem Spells.exists_row {negative : Bool} (h : Spells negative parts cs) :
    ∃ before r, cs = before ++ r ∧ Row parts r := by
  have hmagnitude {cs : List Char} (h : Magnitude parts cs) :
      ∃ before r, cs = before ++ r ∧ Row parts r := by
    cases h with
    | zero => exact ⟨['0'], [], rfl, .nil⟩
    | row _ _ hrow => exact ⟨[], cs, rfl, hrow⟩
  cases h with
  | unsigned h => exact hmagnitude h
  | plus h | minus h =>
    obtain ⟨before, r, rfl, hrow⟩ := hmagnitude h
    exact ⟨_ :: before, r, rfl, hrow⟩

end HostLisp.Duration
