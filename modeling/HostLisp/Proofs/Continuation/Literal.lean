import HostLisp.Proofs.Grammar.Atom
import HostLisp.Proofs.Grammar.Literal
import HostLisp.Proofs.Reading.Layout

/-!
# Numbers and keywords before different ends

How a number or a keyword is read depends on what it consists of, and on whether a boundary stands
behind it; not on what else follows.  So the same text is read alike in front of two ends with which
no word goes on, if both of them begin with a boundary or neither does:

    alike_literal : EndsWord e → EndsWord e' → (Stops e ↔ Stops e') →
      Alike e e' (literal (x ++ e)) (literal (x ++ e')).
-/

namespace HostLisp.Reader

open Parsing

/-! ### Ends -/

/-- No word goes on here: no name does, and there is no point with more of one behind it. -/
structure EndsWord (e : List Char) : Prop where
  name : EndsName e
  members : EndsMembers e

/-- Nothing follows, or white space or a closing bracket does. -/
def Closes (w : List Char) : Prop := ∀ c ∈ w.head?, isSpacing c = true ∨ c = ')' ∨ c = ']'

section
variable {e w k : List Char}

theorem Closes.nil : Closes [] := by
  intro c hc
  cases hc

theorem Closes.cons {c : Char} (h : isSpacing c = true ∨ c = ')' ∨ c = ']') : Closes (c :: w) :=
  head?_cons_of h w

theorem Closes.stops (h : Closes w) : Stops w := by
  intro c hc
  obtain hc | rfl | rfl := h c hc
  · exact Value.isBoundary_of_isSpacing hc
  · decide
  · decide

theorem not_closes_cons {c : Char} (hc : isSpacing c = false ∧ c ≠ ')' ∧ c ≠ ']') :
    ¬ Closes (c :: w) := by
  intro h
  obtain hs | hp | hb := h c rfl
  · rw [hc.1] at hs
    cases hs
  · exact hc.2.1 hp
  · exact hc.2.2 hb

theorem Closes.head_ne (h : Closes w) {d : Char} (hd : isSpacing d = false ∧ d ≠ ')' ∧ d ≠ ']') :
    ∀ c ∈ w.head?, c ≠ d := by
  intro c hc hcd
  obtain ⟨r, rfl⟩ := List.head?_eq_some_iff.1 hc
  subst hcd
  exact not_closes_cons hd h

theorem endsMembers_of_head (h : ∀ c ∈ e.head?, c ≠ '.') : EndsMembers e := by
  intro t ht
  subst ht
  exact absurd rfl (h '.' rfl)

theorem Stops.endsWord (h : Stops e) : EndsWord e := by
  refine ⟨h.endsName, endsMembers_of_head ?_⟩
  intro c hc hpoint
  have hb := h c hc
  rw [hpoint] at hb
  cases hb

end

/-! ### Outcomes in front of two ends -/

/-- Outcomes of one text in front of two ends: the same result, with as much left over in front of
the end, or failures of the same strength. -/
inductive Alike {α : Type} (e e' : List Char) :
    Except (Fail Fault) (α × List Char) → Except (Fail Fault) (α × List Char) → Prop
  | ok (a : α) (r : List Char) : Alike e e' (.ok (a, r ++ e)) (.ok (a, r ++ e'))
  | backtrack (f f' : Fault) : Alike e e' (.error (.backtrack f)) (.error (.backtrack f'))
  | cut (f f' : Fault) : Alike e e' (.error (.cut f)) (.error (.cut f'))

section
variable {α : Type} {e e' : List Char} {o o' : Except (Fail Fault) (α × List Char)}

/-- Everything in front of the end is taken, whichever end it is. -/
theorem Alike.eq_ok {a : α} (h : Alike e e' o o') (ho : o = .ok (a, e)) : o' = .ok (a, e') := by
  cases h with
  | ok a' r =>
    obtain ⟨rfl, hr⟩ : a' = a ∧ r = [] := by simpa using ho
    rw [hr, List.nil_append]
  | backtrack f f' => cases ho
  | cut f f' => cases ho

theorem Alike.eq_backtrack {f : Fault} (h : Alike e e' o o') (ho : o = .error (.backtrack f)) :
    ∃ f', o' = .error (.backtrack f') := by
  cases h with
  | ok a r => cases ho
  | backtrack f f' => exact ⟨f', rfl⟩
  | cut f f' => cases ho

theorem Alike.eq_cut {f : Fault} (h : Alike e e' o o') (ho : o = .error (.cut f)) :
    ∃ f', o' = .error (.cut f') := by
  cases h with
  | ok a r => cases ho
  | backtrack f f' => cases ho
  | cut f f' => exact ⟨f', rfl⟩

end

/-- The parser takes every text alike in front of the two ends. -/
def Indifferent {α : Type} (e e' : List Char) (p : Reads α) : Prop :=
  ∀ x, Alike e e' (p (x ++ e)) (p (x ++ e'))

section
variable {α β : Type} {e e' : List Char} {p q : Reads α} {f : α → Reads β}

theorem Indifferent.bind (hp : Indifferent e e' p) (hf : ∀ a, Indifferent e e' (f a)) :
    Indifferent e e' (p >>= f) := by
  intro x
  have h := hp x
  rw [bind_apply, bind_apply]
  generalize p (x ++ e) = o at h ⊢
  generalize p (x ++ e') = o' at h ⊢
  cases h with
  | ok a r => exact hf a r
  | backtrack f f' => exact .backtrack f f'
  | cut f f' => exact .cut f f'

theorem indifferent_pure (a : α) : Indifferent e e' (pure a : Reads α) := fun x => .ok a x

theorem Indifferent.map {g : α → β} (hp : Indifferent e e' p) : Indifferent e e' (g <$> p) := by
  rw [map_eq_pure_bind]
  exact hp.bind fun a => indifferent_pure (g a)

theorem Indifferent.terminated {q : Reads β} (hp : Indifferent e e' p) (hq : Indifferent e e' q) :
    Indifferent e e' (terminated p q) := hp.bind fun a => hq.bind fun _ => indifferent_pure a

theorem Indifferent.orElse (hp : Indifferent e e' p) (hq : Indifferent e e' q) :
    Indifferent e e' (orElse p q) := by
  intro x
  have h := hp x
  unfold Parsing.orElse
  generalize p (x ++ e) = o at h ⊢
  generalize p (x ++ e') = o' at h ⊢
  cases h with
  | ok a r => exact .ok a r
  | backtrack f f' => exact hq x
  | cut f f' => exact .cut f f'

theorem indifferent_ahead (h : Stops e ↔ Stops e') : Indifferent e e' (ahead isBoundary) := by
  intro x
  cases x with
  | nil =>
    by_cases he : Stops e
    · rw [List.nil_append, List.nil_append, ahead_of_stops he, ahead_of_stops (h.1 he)]
      exact .ok () []
    · obtain ⟨f, hf⟩ := backtracks_ahead_of_not_stops he
      obtain ⟨f', hf'⟩ := backtracks_ahead_of_not_stops (mt h.2 he)
      rw [List.nil_append, List.nil_append, hf, hf']
      exact .backtrack f f'
  | cons c x =>
    by_cases hc : isBoundary c = true
    · have hstop : ∀ e, ahead isBoundary (c :: (x ++ e)) = .ok ((), c :: (x ++ e)) := fun e =>
        ahead_of_stops (.cons hc)
      rw [List.cons_append, List.cons_append, hstop, hstop]
      exact .ok () (c :: x)
    · have hb : ∀ e, Backtracks (ahead isBoundary) (c :: (x ++ e)) := fun e =>
        backtracks_ahead ⟨c, rfl, by simpa using hc⟩
      obtain ⟨f, hf⟩ := hb e
      obtain ⟨f', hf'⟩ := hb e'
      rw [List.cons_append, List.cons_append, hf, hf']
      exact .backtrack f f'

end

/-! ### Lexemes -/

section
variable {α : Type} {e e' : List Char}

/-- The lexeme takes every text alike in front of ends with which no word goes on. -/
def Scans (l : Lexeme α) : Prop :=
  ∀ x, (∃ a r, ∀ e, EndsWord e → l (x ++ e) = .found a (r ++ e)) ∨
    ∀ e, EndsWord e → ∃ stop, l (x ++ e) = .mismatch stop

theorem Scans.indifferent {l : Lexeme α} (h : Scans l) (he : EndsWord e) (he' : EndsWord e') :
    Indifferent e e' (lex l) := by
  intro x
  obtain ⟨a, r, hfound⟩ | hmismatch := h x
  · rw [lex_of_found (hfound e he), lex_of_found (hfound e' he')]
    exact .ok a r
  · obtain ⟨stop, hstop⟩ := hmismatch e he
    obtain ⟨stop', hstop'⟩ := hmismatch e' he'
    obtain ⟨f, hf⟩ : Backtracks (lex l : Reads α) (x ++ e) := backtracks_lex hstop
    obtain ⟨f', hf'⟩ : Backtracks (lex l : Reads α) (x ++ e') := backtracks_lex hstop'
    rw [hf, hf']
    exact .backtrack f f'

theorem upTo_append_append (x r e : List Char) : upTo (x ++ e) (r ++ e) = upTo x r := by
  unfold upTo
  have hlen : (x ++ e).length - (r ++ e).length = x.length - r.length := by
    simp only [List.length_append]
    omega
  rw [hlen, List.take_append_of_le_length (by omega)]

theorem scans_intLexeme : Scans intLexeme := by
  intro x
  by_cases hd : (dropSign x).takeWhile Char.isDigit = []
  · right
    intro e he
    exact ⟨dropSign (x ++ e), by simp [intLexeme, takeWhile_digits he.name, hd]⟩
  · left
    refine ⟨upTo x ((dropSign x).dropWhile Char.isDigit), (dropSign x).dropWhile Char.isDigit, ?_⟩
    intro e he
    simp only [intLexeme, takeWhile_digits he.name, dropWhile_digits he.name, List.isEmpty_iff, hd,
      if_false, upTo_append_append]

theorem dropExponent_append {x : List Char} (he : EndsName e) :
    dropExponent (x ++ e) = dropExponent x ++ e := by
  cases x with
  | nil =>
    rw [List.nil_append]
    cases e with
    | nil => rfl
    | cons c e =>
      have hname : isNameChar c = false := he c rfl
      have hc : ¬ (c = 'e' ∨ c = 'E') := by
        intro hc
        obtain rfl | rfl := hc
        · revert hname
          decide
        · revert hname
          decide
      simp [dropExponent, hc]
  | cons c x =>
    obtain ⟨htake, hdrop⟩ := digits_append (n := dropSign x) he
    simp only [List.cons_append, dropExponent, dropSign_append he, htake, hdrop]
    split
    · rfl
    · rfl

theorem scans_floatLexeme : Scans floatLexeme := by
  intro x
  by_cases hd : (dropSign x).takeWhile Char.isDigit = []
  · right
    intro e he
    exact ⟨dropSign (x ++ e), by simp [floatLexeme, takeWhile_digits he.name, hd]⟩
  -- Where the digits end there is a point in `x`, another character of `x`, or the end.
  rcases hrest : (dropSign x).dropWhile Char.isDigit with _ | ⟨c, fs⟩
  · right
    intro e he
    simp only [floatLexeme, takeWhile_digits he.name, dropWhile_digits he.name, List.isEmpty_iff,
      hd, hrest, if_false, List.nil_append]
    split
    · next fs =>
      have hfs := (he.members fs rfl).takeWhile_eq_nil fun c hc => isNameChar_of_isDigit hc
      exact ⟨fs, by rw [hfs]; rfl⟩
    · exact ⟨_, rfl⟩
  by_cases hc : c = '.'
  · subst hc
    by_cases hfs : fs.takeWhile Char.isDigit = []
    · right
      intro e he
      obtain ⟨htake, -⟩ := digits_append (n := fs) he.name
      refine ⟨fs ++ e, ?_⟩
      simp only [floatLexeme, takeWhile_digits he.name, dropWhile_digits he.name, List.isEmpty_iff,
        hd, hrest, if_false, List.cons_append, htake, hfs, if_true]
    · left
      refine ⟨upTo x (dropExponent (fs.dropWhile Char.isDigit)),
        dropExponent (fs.dropWhile Char.isDigit), ?_⟩
      intro e he
      obtain ⟨htake, hdrop⟩ := digits_append (n := fs) he.name
      simp only [floatLexeme, takeWhile_digits he.name, dropWhile_digits he.name, List.isEmpty_iff,
        hd, hrest, if_false, List.cons_append, htake, hdrop, hfs, dropExponent_append he.name,
        upTo_append_append]
  · right
    intro e he
    refine ⟨c :: (fs ++ e), ?_⟩
    simp [floatLexeme, takeWhile_digits he.name, dropWhile_digits he.name, hd, hrest, hc]

/-- A word that reaches over the end of a text goes on in what stands behind it. -/
theorem exists_of_prefix_append {w x e : List Char} (h : w <+: x ++ e) (hx : ¬ w <+: x) :
    ∃ c t, w = x ++ c :: t ∧ c :: t <+: e := by
  obtain ⟨t, rfl⟩ := (List.prefix_or_prefix_of_prefix h (List.prefix_append x e)).resolve_left hx
  rw [List.prefix_append_right_inj] at h
  cases t with
  | nil => exact absurd (by simp) hx
  | cons c t => exact ⟨c, t, rfl, h⟩

theorem scans_word {w : List Char} (hw : ∀ c ∈ w, isNameChar c = true) :
    Scans (Lexeme.word w) := by
  intro x
  by_cases hp : w <+: x
  · obtain ⟨r, rfl⟩ := hp
    refine .inl ⟨w, r, ?_⟩
    intro e he
    rw [List.append_assoc]
    exact Lexeme.word_append w (r ++ e)
  · right
    intro e he
    refine ⟨x ++ e, Lexeme.word_eq_mismatch ?_⟩
    intro hpe
    obtain ⟨c, t, rfl, k, rfl⟩ := exists_of_prefix_append hpe hp
    have hc := he.name c rfl
    rw [hw c (by simp)] at hc
    cases hc

end

/-! ### Literals -/

section
variable {e e' : List Char} (he : EndsWord e) (he' : EndsWord e') (h : Stops e ↔ Stops e')
include he he' h

theorem indifferent_token {l : Lexeme (List Char)} (hl : Scans l) :
    Indifferent e e' (terminated (lex l) (ahead isBoundary) : Reads (List Char)) :=
  (hl.indifferent he he').terminated (indifferent_ahead h)

theorem indifferent_int : Indifferent e e' int := by
  intro x
  have hx := indifferent_token he he' h scans_intLexeme x
  simp only [int, bind, Except.bind]
  generalize (terminated (lex intLexeme) (ahead isBoundary) : Reads (List Char)) (x ++ e) = o
    at hx ⊢
  generalize (terminated (lex intLexeme) (ahead isBoundary) : Reads (List Char)) (x ++ e') = o'
    at hx ⊢
  cases hx with
  | ok a r =>
    dsimp only
    split
    · exact .ok _ r
    · exact .cut _ _
  | backtrack f f' => exact .backtrack f f'
  | cut f f' => exact .cut f f'

theorem indifferent_keyword {w : List Char} (hw : w.all isNameChar = true) :
    Indifferent e e' (keyword w) :=
  indifferent_token he he' h (scans_word (List.all_eq_true.1 hw))

theorem alike_literal (x : List Char) : Alike e e' (literal (x ++ e)) (literal (x ++ e')) := by
  have hfloat : Indifferent e e' float :=
    (indifferent_token he he' h scans_floatLexeme).bind fun _ => indifferent_pure _
  have hbool : Indifferent e e' bool :=
    ((indifferent_keyword he he' h (by decide)).bind fun _ => indifferent_pure _).orElse
      ((indifferent_keyword he he' h (by decide)).bind fun _ => indifferent_pure _)
  have hnil : Indifferent e e' nil :=
    (indifferent_keyword he he' h (by decide)).bind fun _ => indifferent_pure ()
  exact hfloat.map.orElse ((indifferent_int he he' h).map.orElse (hbool.map.orElse hnil.map)) x

end

end HostLisp.Reader
