import HostLisp.Proofs.Grammar.Stepwise

/-!
# The grammar of integers

An integer is written as one or more digits, with or without a sign; leading zeros do no harm.  In
front of a boundary it is read as its value, or refused as a limit if that does not fit in 64 bits:

    int_eq_ok_iff : int cs = .ok (n, k) ↔ ∃ w, Numeral n.toInt w ∧ cs = w ++ k ∧ Stops k

Among the nine alternatives of a node floats are tried before integers, but no float ends where an
integer does, and no other alternative reads one.  So a text without white space around it is read
as a node that is an integer exactly if it is an integer.
-/

namespace HostLisp.Reader

open Parsing

/-- An integer and how it is written. -/
inductive Numeral : Int → List Char → Prop where
  | unsigned {ds : List Char} (hne : ds ≠ []) (hds : ∀ c ∈ ds, c.isDigit = true) :
      Numeral (Decimal.value ds) ds
  | plus {ds : List Char} (hne : ds ≠ []) (hds : ∀ c ∈ ds, c.isDigit = true) :
      Numeral (Decimal.value ds) ('+' :: ds)
  | minus {ds : List Char} (hne : ds ≠ []) (hds : ∀ c ∈ ds, c.isDigit = true) :
      Numeral (-Decimal.value ds) ('-' :: ds)

/-- The text neither begins nor ends with white space that may stand around a node. -/
structure Unpadded (text : String) : Prop where
  head : ∀ c ∈ text.toList.head?, isSpacing c = false
  last : ∀ c ∈ text.toList.getLast?, isSpacing c = false

variable {cs w k : List Char} {z : Int} {n : Int64} {text : String}

/-! ### Numerals -/

theorem dropSign_cases (cs : List Char) :
    (∃ t, cs = '+' :: t) ∨ (∃ t, cs = '-' :: t) ∨ dropSign cs = cs := by
  unfold dropSign
  split
  · exact .inl ⟨_, rfl⟩
  · exact .inr (.inl ⟨_, rfl⟩)
  · exact .inr (.inr rfl)

theorem numeral_iff :
    Numeral z w ↔ dropSign w ≠ [] ∧ (∀ c ∈ dropSign w, c.isDigit = true) ∧ intValue w = z := by
  constructor
  · intro h
    cases h with
    | unsigned hne hds =>
      simp only [dropSign_of_isDigit hds, intValue, splitSign_of_isDigit hds]
      exact ⟨hne, hds, rfl⟩
    | plus hne hds => exact ⟨hne, hds, rfl⟩
    | minus hne hds => exact ⟨hne, hds, rfl⟩
  · rintro ⟨hne, hds, rfl⟩
    obtain ⟨t, rfl⟩ | ⟨t, rfl⟩ | hsign := dropSign_cases w
    · exact .plus hne hds
    · exact .minus hne hds
    · rw [hsign] at hne hds
      simp only [intValue, splitSign_of_isDigit hds]
      exact .unsigned hne hds

theorem Numeral.isNameChar (h : Numeral z w) : ∀ c ∈ w, isNameChar c = true := by
  cases h with
  | unsigned hne hds => exact fun c hc => isNameChar_of_isDigit (hds c hc)
  | plus hne hds =>
    exact List.forall_mem_cons.2 ⟨by decide, fun c hc => isNameChar_of_isDigit (hds c hc)⟩
  | minus hne hds =>
    exact List.forall_mem_cons.2 ⟨by decide, fun c hc => isNameChar_of_isDigit (hds c hc)⟩

theorem Numeral.ne_nil (h : Numeral z w) : w ≠ [] := by
  cases h with
  | unsigned hne => exact hne
  | plus => exact List.cons_ne_nil _ _
  | minus => exact List.cons_ne_nil _ _

/-- What is in front of `dropSign cs` is a sign or nothing, and is dropped in front of any digits. -/
theorem exists_sign (cs : List Char) :
    ∃ s, cs = s ++ dropSign cs ∧
      ∀ ds : List Char, (∀ c ∈ ds, c.isDigit = true) → dropSign (s ++ ds) = ds := by
  obtain ⟨t, rfl⟩ | ⟨t, rfl⟩ | hsign := dropSign_cases cs
  · exact ⟨['+'], rfl, fun _ _ => rfl⟩
  · exact ⟨['-'], rfl, fun _ _ => rfl⟩
  · exact ⟨[], hsign.symm, fun _ hds => dropSign_of_isDigit hds⟩

theorem numeral_of_intLexeme (h : intLexeme cs = .found w k) :
    (∃ z, Numeral z w) ∧ cs = w ++ k := by
  unfold intLexeme at h
  dsimp only at h
  split at h
  · cases h
  next hdigits =>
  have hall : ∀ c ∈ (dropSign cs).takeWhile Char.isDigit, c.isDigit = true := fun c hc =>
    List.mem_takeWhile_imp hc
  obtain ⟨s, hs, hsign⟩ := exists_sign cs
  have hdrop := hsign _ hall
  have hcs : cs = (s ++ (dropSign cs).takeWhile Char.isDigit) ++
      (dropSign cs).dropWhile Char.isDigit := by
    rw [List.append_assoc, List.takeWhile_append_dropWhile, ← hs]
  -- The lexeme is what is in front of the text behind the digits: the sign and the digits.
  have hw : upTo cs ((dropSign cs).dropWhile Char.isDigit) =
      s ++ (dropSign cs).takeWhile Char.isDigit :=
    (congrArg (upTo · _) hcs).trans (upTo_append _ _)
  cases h
  rw [hw]
  refine ⟨⟨_, numeral_iff.2 ⟨?_, ?_, rfl⟩⟩, hcs⟩
  · rw [hdrop]
    simpa using hdigits
  · rwa [hdrop]

theorem stops_of_ahead {u : Unit} (h : ahead isBoundary cs = .ok (u, k)) : k = cs ∧ Stops cs := by
  by_cases hs : Stops cs
  · rw [ahead_of_stops hs] at h
    cases h
    exact ⟨rfl, hs⟩
  · exact absurd (backtracks_ahead_of_not_stops hs) (not_backtracks_of_ok h)

/-- The characters of an integer are taken, whatever its size. -/
theorem intToken_eq_ok_iff :
    terminated (lex intLexeme) (ahead isBoundary) cs = .ok (w, k) ↔
      (∃ z, Numeral z w) ∧ cs = w ++ k ∧ Stops k := by
  constructor
  · intro h
    obtain ⟨r, _, hlex, hahead⟩ := exists_of_terminated h
    obtain ⟨rfl, hstops⟩ := stops_of_ahead hahead
    unfold lex at hlex
    split at hlex
    · next hfound =>
      cases hlex
      obtain ⟨hnumeral, hcs⟩ := numeral_of_intLexeme hfound
      exact ⟨hnumeral, hcs, hstops⟩
    all_goals cases hlex
  · rintro ⟨⟨z, h⟩, rfl, hk⟩
    obtain ⟨hne, hds, -⟩ := numeral_iff.1 h
    exact intToken_append hk hne hds

/-! ### Integers -/

theorem int_eq_ok_iff :
    int cs = .ok (n, k) ↔ ∃ w, Numeral n.toInt w ∧ cs = w ++ k ∧ Stops k := by
  constructor
  · intro h
    unfold int at h
    cases htoken : (terminated (lex intLexeme) (ahead isBoundary) : Reads (List Char)) cs with
    | error e =>
      rw [htoken] at h
      cases h
    | ok x =>
      obtain ⟨w, r⟩ := x
      simp only [htoken, bind, Except.bind] at h
      obtain ⟨⟨z, hz⟩, hcs, hstops⟩ := intToken_eq_ok_iff.1 htoken
      obtain ⟨-, -, rfl⟩ := numeral_iff.1 hz
      split at h
      · next hrange =>
        cases h
        refine ⟨w, ?_, hcs, hstops⟩
        rwa [Int64.toInt_ofInt_of_le hrange.1 hrange.2]
      · cases h
  · rintro ⟨w, h, rfl, hk⟩
    obtain ⟨hne, hds, hvalue⟩ := numeral_iff.1 h
    have hlo : -9_223_372_036_854_775_808 ≤ n.toInt := n.le_toInt
    have hhi : n.toInt < 9_223_372_036_854_775_808 := n.toInt_lt
    have hread := int_append hk hne hds (by rwa [hvalue]) (by rwa [hvalue])
    rwa [hvalue, Int64.ofInt_toInt] at hread

/-- An integer that does not fit is refused for good. -/
theorem int_out_of_range (h : Numeral z w) (hk : Stops k)
    (hz : z < Int64.minValue.toInt ∨ Int64.maxValue.toInt < z) :
    int (w ++ k) = .error (.cut ⟨.integerRange w, w ++ k⟩) := by
  have hmin : Int64.minValue.toInt = -9_223_372_036_854_775_808 := rfl
  have hmax : Int64.maxValue.toInt = 9_223_372_036_854_775_807 := rfl
  obtain ⟨hne, hds, hvalue⟩ := numeral_iff.1 h
  have hrange : ¬ (-9_223_372_036_854_775_808 ≤ z ∧ z < 9_223_372_036_854_775_808) := by omega
  simp only [int, intToken_append hk hne hds, bind, Except.bind, hvalue, if_neg hrange]

theorem readInt_eq_ok_iff : readInt text = .ok n ↔ int text.toList = .ok (n, []) := by
  constructor
  · intro h
    obtain ⟨m, k, hread, rfl⟩ := exists_of_run_map h
    obtain ⟨r, _, hint, heof⟩ := exists_of_terminated hread
    unfold eof at heof
    split at heof
    · next hnil =>
      cases heof
      obtain rfl := List.length_eq_zero_iff.1 hnil
      exact hint
    · cases heof
  · intro h
    have hread : (terminated int eof : Reads Int64) text.toList = .ok (n, []) :=
      terminated_of_ok h rfl
    unfold readInt run
    rw [hread]
    rfl

theorem readInt_eq_ok_iff_numeral : readInt text = .ok n ↔ Numeral n.toInt text.toList := by
  rw [readInt_eq_ok_iff, int_eq_ok_iff]
  constructor
  · rintro ⟨w, h, hcs, -⟩
    rw [hcs, List.append_nil]
    exact h
  · intro h
    exact ⟨_, h, (List.append_nil _).symm, by simp [Stops]⟩

/-! ### Integers among the nodes -/

/-- Floats are tried first, but an integer has no point behind its digits. -/
theorem literal_eq_int_iff : literal cs = .ok (.int n, k) ↔ int cs = .ok (n, k) := by
  constructor
  · intro h
    -- Whichever alternative reads the text, only that of integers yields one.
    obtain ⟨p, hp, hx⟩ := exists_of_choice h
    simp only [List.mem_cons, List.not_mem_nil, or_false] at hp
    obtain rfl | rfl | rfl | rfl := hp
    all_goals obtain ⟨a, ha, heq⟩ := exists_of_map hx
    · cases heq
    · cases heq
      exact ha
    · cases heq
    · cases heq
  · intro h
    obtain ⟨w, hw, rfl, hk⟩ := int_eq_ok_iff.1 h
    have hpoint : ∀ c ∈ k.head?, c ≠ '.' := by
      rintro c hc rfl
      exact absurd (hk '.' hc) (by decide)
    have hfloat := backtracks_float hk.endsName hw.isNameChar (.inr hpoint)
    exact (choice_of_backtracks hfloat.map).trans (choice_of_ok (map_of_ok Value.int h))

theorem Numeral.unmarked (h : Numeral z w) (k : List Char) : Unmarked (w ++ k) := by
  obtain ⟨c, t, rfl⟩ := List.exists_cons_of_ne_nil h.ne_nil
  have hc := h.isNameChar c List.mem_cons_self
  rw [List.cons_append]
  refine head?_cons_of ⟨?_, ?_, ?_⟩ (t ++ k) <;>
  · rintro rfl
    exact absurd hc (by decide)

theorem topNode_eq_int_iff {d : Dialect} :
    topNode d cs = .ok (.int n, k) ↔ int cs = .ok (n, k) := by
  show node d (63 + 1) cs = .ok (.int n, k) ↔ _
  rw [node_eq_ok_iff]
  constructor
  · intro h
    cases h with
    | literal hm h => exact literal_eq_int_iff.1 h
  · intro h
    obtain ⟨w, hw, rfl, -⟩ := int_eq_ok_iff.1 h
    exact .literal (hw.unmarked k) (literal_eq_int_iff.2 h)

/-- White space at the end of an unpadded text is none at all. -/
theorem Unpadded.eq_nil (h : Unpadded text) (hcs : text.toList = w ++ k)
    (hk : k.dropWhile isSpacing = []) : k = [] := by
  rw [List.dropWhile_eq_nil_iff] at hk
  by_contra hne
  have hlast := h.last (k.getLast hne) (by
    rw [hcs, List.getLast?_append_of_ne_nil _ hne, List.getLast?_eq_some_getLast hne]
    rfl)
  rw [hk _ (List.getLast_mem hne)] at hlast
  cases hlast

theorem Unpadded.dropWhile_eq (h : Unpadded text) :
    text.toList.dropWhile isSpacing = text.toList := by
  cases hcs : text.toList with
  | nil => rfl
  | cons c t =>
    have hc := h.head c (by rw [hcs]; rfl)
    exact List.dropWhile_cons_of_neg (by simp [hc])

theorem readOne_eq_int_iff (h : Unpadded text) :
    readOne text = .ok (.int n) ↔ Numeral n.toInt text.toList := by
  rw [readOne_eq_ok_iff, read_eq_ok_iff, h.dropWhile_eq]
  simp only [topNode_eq_int_iff]
  constructor
  · rintro ⟨k, hint, hrest⟩
    obtain ⟨w, hw, hcs, -⟩ := int_eq_ok_iff.1 hint
    obtain rfl := h.eq_nil hcs (String.ofList_injective hrest.symm)
    rwa [hcs, List.append_nil]
  · intro hn
    exact ⟨[], readInt_eq_ok_iff.1 (readInt_eq_ok_iff_numeral.2 hn), rfl⟩

/-- A text is read as an integer exactly if it stands for it; one that stands for an integer out of
range is refused as a limit, and every other one is refused.  Where there is no white space around
it, the reader of nodes agrees. -/
theorem readInt_numeral (text : String) :
    (∀ n, readInt text = .ok n ↔ Numeral n.toInt text.toList) ∧
      (∀ z, Numeral z text.toList → z < Int64.minValue.toInt ∨ Int64.maxValue.toInt < z →
        ∃ e, readInt text = .error e ∧ e.kind = .limit) ∧
      ((∀ z, ¬ Numeral z text.toList) → ∃ e, readInt text = .error e) ∧
      (Unpadded text → ∀ n, readInt text = .ok n ↔ readOne text = .ok (.int n)) := by
  refine ⟨fun n => readInt_eq_ok_iff_numeral, fun z hz hrange => ?_, fun hnone => ?_,
    fun h n => ?_⟩
  · have hint := int_out_of_range hz (k := []) (by simp [Stops]) hrange
    rw [List.append_nil] at hint
    unfold readInt run
    rw [terminated_of_error hint]
    exact ⟨_, rfl, rfl⟩
  · cases h : readInt text with
    | error e => exact ⟨e, rfl⟩
    | ok n => exact absurd (readInt_eq_ok_iff_numeral.1 h) (hnone _)
  · rw [readInt_eq_ok_iff_numeral, readOne_eq_int_iff h]

/-- The smallest integer with a leading zero, the one before it, and a text with only a sign. -/
theorem readInt_numeral_boundary :
    Numeral Int64.minValue.toInt "-09223372036854775808".toList ∧
      readOne "-09223372036854775808" = .ok (.int Int64.minValue) ∧
      (∃ e, readInt "-9223372036854775809" = .error e ∧ e.kind = .limit) ∧
      ∃ e, readInt "-" = .error e := by
  have hsmallest : Numeral Int64.minValue.toInt "-09223372036854775808".toList := by
    have hds : ∀ c ∈ "09223372036854775808".toList, c.isDigit = true := by simp
    exact .minus (by decide) hds
  have hbelow : Numeral (-9_223_372_036_854_775_809) "-9223372036854775809".toList := by
    have hds : ∀ c ∈ "9223372036854775809".toList, c.isDigit = true := by simp
    exact .minus (by decide) hds
  have hsign : ∀ z, ¬ Numeral z "-".toList := by
    intro z h
    exact (numeral_iff.1 h).1 rfl
  obtain ⟨hread, -, -, hagree⟩ := readInt_numeral "-09223372036854775808"
  have hpadding : Unpadded "-09223372036854775808" := by
    constructor
    · rintro c ⟨⟩
      rfl
    · rintro c ⟨⟩
      rfl
  exact ⟨hsmallest, (hagree hpadding _).1 ((hread _).2 hsmallest),
    (readInt_numeral _).2.1 _ hbelow (.inl (by decide)), (readInt_numeral _).2.2.1 hsign⟩

end HostLisp.Reader
