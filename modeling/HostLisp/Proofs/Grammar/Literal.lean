import HostLisp.Proofs.Parsing.Progress
import HostLisp.Proofs.Reading.Depth

/-!
# The grammar of strings and characters

A string ends at its closing quote, and breaks at an escape that is not known or at the end of the
text.  A quote mark opens a character if another one stands behind the character; otherwise, unless
an escape breaks, it is left to what is quoted.  The rules are for the text *behind* the opening
mark:

    stringBody_eq_ok_iff : stringBody start cs = .ok (s, k) ↔ BodyRead cs s k
    CharacterRead.character_eq : CharacterRead cs c k → character ('\'' :: cs) = .ok (c, k).

Numbers and keywords take something of the text (`takesSome_literal`) and leave it to others unless
they are integers out of range (`kind_of_literal`).
-/

namespace HostLisp.Reader

open Parsing Text

/-! ### Strings -/

/-- The characters of a string, its closing quote, and the text `k` behind it. -/
inductive BodyRead : List Char → List Char → List Char → Prop
  | close {k : List Char} : BodyRead ('"' :: k) [] k
  | escaped {e c : Char} {cs s k : List Char} (h : unescape? e = some c) (hs : BodyRead cs s k) :
      BodyRead ('\\' :: e :: cs) (c :: s) k
  | plain {c : Char} {cs s k : List Char} (hb : c ≠ '\\') (hq : c ≠ '"') (hs : BodyRead cs s k) :
      BodyRead (c :: cs) (c :: s) k

/-- Characters of a string that does not end, or in which an escape is broken. -/
inductive BodyCut (start : List Char) : List Char → Fault → Prop
  | unterminated : BodyCut start [] ⟨.unterminatedString, start⟩
  | halfEscape : BodyCut start ['\\'] ⟨.endOfInput, []⟩
  | unknownEscape {e : Char} {cs : List Char} (h : unescape? e = none) :
      BodyCut start ('\\' :: e :: cs) ⟨.unknownEscape e, '\\' :: e :: cs⟩
  | escaped {e c : Char} {cs : List Char} {f : Fault} (h : unescape? e = some c)
      (hs : BodyCut start cs f) : BodyCut start ('\\' :: e :: cs) f
  | plain {c : Char} {cs : List Char} {f : Fault} (hb : c ≠ '\\') (hq : c ≠ '"')
      (hs : BodyCut start cs f) : BodyCut start (c :: cs) f

section
variable {start cs s k : List Char} {f : Fault}

theorem BodyRead.stringBody_eq (h : BodyRead cs s k) : stringBody start cs = .ok (s, k) := by
  induction h with
  | close => simp [stringBody]
  | escaped h hs ih => rw [stringBody_escape h, ih]; rfl
  | plain hb hq hs ih => rw [stringBody_cons hb hq, ih]; rfl

theorem BodyCut.stringBody_eq (h : BodyCut start cs f) :
    stringBody start cs = .error (.cut f) := by
  induction h with
  | unterminated => rfl
  | halfEscape => rfl
  | unknownEscape h => simp [stringBody, h]
  | escaped h hs ih => rw [stringBody_escape h, ih]; rfl
  | plain hb hq hs ih => rw [stringBody_cons hb hq, ih]; rfl

theorem bodyRead_or_bodyCut (start cs : List Char) :
    (∃ s k, BodyRead cs s k) ∨ ∃ f, BodyCut start cs f := by
  induction cs using stringBody.induct with
  | case1 => exact .inr ⟨_, .unterminated⟩
  | case2 => exact .inr ⟨_, .halfEscape⟩
  | case3 e cs h => exact .inr ⟨_, .unknownEscape h⟩
  | case4 e cs c h ih =>
    obtain ⟨s, k, hs⟩ | ⟨f, hs⟩ := ih
    · exact .inl ⟨_, _, .escaped h hs⟩
    · exact .inr ⟨_, .escaped h hs⟩
  | case5 cs => exact .inl ⟨_, _, .close⟩
  | case6 c cs hend hmore hq ih =>
    have hb : c ≠ '\\' := by
      intro hc
      cases cs with
      | nil => exact hend hc rfl
      | cons e cs => exact hmore e cs hc rfl
    obtain ⟨s, k, hs⟩ | ⟨f, hs⟩ := ih
    · exact .inl ⟨_, _, .plain hb hq hs⟩
    · exact .inr ⟨_, .plain hb hq hs⟩

theorem stringBody_eq_ok_iff : stringBody start cs = .ok (s, k) ↔ BodyRead cs s k := by
  refine ⟨?_, BodyRead.stringBody_eq⟩
  intro h
  obtain ⟨s', k', hs⟩ | ⟨f, hs⟩ := bodyRead_or_bodyCut start cs
  · rw [hs.stringBody_eq] at h
    cases h
    exact hs
  · rw [hs.stringBody_eq] at h
    cases h

theorem BodyRead.suffix (h : BodyRead cs s k) : k <:+ cs := by
  induction h with
  | close => exact List.suffix_cons ..
  | escaped h hs ih => exact ih.trans (List.suffix_append ['\\', _] _)
  | plain hb hq hs ih => exact ih.trans (List.suffix_cons ..)

end

section
variable {u k : List Char} {t : String} {f : Fault}

theorem BodyRead.string_eq {s : List Char} (h : BodyRead u s k) :
    string ('"' :: u) = .ok (String.ofList s, k) := by
  simp only [string, char_cons, bind, Except.bind, h.stringBody_eq]

theorem BodyCut.string_eq (h : BodyCut ('"' :: u) u f) :
    string ('"' :: u) = .error (.cut f) := by
  simp only [string, char_cons, bind, Except.bind, h.stringBody_eq]

end

/-! ### Characters -/

/-- A character, a second quote mark, and the text `k` behind it. -/
inductive CharacterRead : List Char → Char → List Char → Prop
  | escaped {e c : Char} {k : List Char} (h : unescape? e = some c) :
      CharacterRead ('\\' :: e :: '\'' :: k) c k
  | plain {c : Char} {k : List Char} (hb : c ≠ '\\') (hq : c ≠ '\'') :
      CharacterRead (c :: '\'' :: k) c k

/-- An escape behind a quote mark that is broken. -/
inductive CharacterCut : List Char → Fault → Prop
  | halfEscape : CharacterCut ['\\'] ⟨.endOfInput, []⟩
  | unknownEscape {e : Char} {cs : List Char} (h : unescape? e = none) :
      CharacterCut ('\\' :: e :: cs) ⟨.unknownEscape e, '\\' :: e :: cs⟩

/-- No character stands behind a quote mark, or no second mark behind the character. -/
inductive NoCharacter : List Char → Prop
  | nil : NoCharacter []
  | mark {k : List Char} : NoCharacter ('\'' :: k)
  | escaped {e c : Char} {k : List Char} (h : unescape? e = some c)
      (hk : ∀ d ∈ k.head?, d ≠ '\'') : NoCharacter ('\\' :: e :: k)
  | plain {c : Char} {k : List Char} (hb : c ≠ '\\') (hq : c ≠ '\'')
      (hk : ∀ d ∈ k.head?, d ≠ '\'') : NoCharacter (c :: k)

section
variable {u k : List Char} {c : Char} {f : Fault}

theorem character_inside_plain (hb : c ≠ '\\') (hq : c ≠ '\'') (k : List Char) :
    orElse escape (satisfy (· ≠ '\'')) (c :: k) = .ok (c, k) := by
  have hesc : Backtracks escape (c :: k) := backtracks_escape (by simpa using hb)
  rw [orElse_of_backtracks hesc, satisfy_cons (by simpa using hq)]

theorem backtracks_character_inside (h : ∀ d ∈ u.head?, d = '\'') :
    Backtracks (orElse escape (satisfy (· ≠ '\''))) u := by
  refine (backtracks_escape ?_).orElse (backtracks_satisfy ?_)
  · intro d hd
    rw [h d hd]
    decide
  · intro d hd
    simp [h d hd]

theorem CharacterRead.character_eq (h : CharacterRead u c k) :
    character ('\'' :: u) = .ok (c, k) := by
  cases h with
  | escaped h =>
    exact between_of_ok (char_cons '\'' _) (orElse_of_ok (escape_of_unescape? h _))
      (char_cons '\'' k)
  | plain hb hq =>
    exact between_of_ok (char_cons '\'' _) (character_inside_plain hb hq _) (char_cons '\'' k)

theorem CharacterCut.character_eq (h : CharacterCut u f) :
    character ('\'' :: u) = .error (.cut f) := by
  refine between_of_error (char_cons '\'' u) (orElse_of_cut ?_)
  cases h with
  | halfEscape => rfl
  | unknownEscape h => simp only [escape, char_cons, bind, Except.bind, h]

theorem NoCharacter.backtracks (h : NoCharacter u) : Backtracks character ('\'' :: u) := by
  have hopen := char_cons '\'' u
  cases h with
  | nil => exact .bind_right hopen (backtracks_character_inside (by simp)).bind
  | mark => exact .bind_right hopen (backtracks_character_inside (by simp)).bind
  | @escaped e c k h hk =>
    have hinside := orElse_of_ok (q := satisfy (· ≠ '\'')) (escape_of_unescape? h k)
    exact .bind_right hopen (.bind_right hinside (backtracks_char hk).bind)
  | plain hb hq hk => exact backtracks_character_mark hq hb hk

theorem character_cases (u : List Char) :
    (∃ c k, CharacterRead u c k) ∨ (∃ f, CharacterCut u f) ∨ NoCharacter u := by
  rcases u with _ | ⟨c, k⟩
  · exact .inr (.inr .nil)
  by_cases hq : c = '\''
  · subst hq
    exact .inr (.inr .mark)
  by_cases hb : c = '\\'
  · subst hb
    rcases k with _ | ⟨e, k⟩
    · exact .inr (.inl ⟨_, .halfEscape⟩)
    cases he : unescape? e with
    | none => exact .inr (.inl ⟨_, .unknownEscape he⟩)
    | some c =>
      by_cases hk : ∃ t, k = '\'' :: t
      · obtain ⟨t, rfl⟩ := hk
        exact .inl ⟨_, _, .escaped he⟩
      · exact .inr (.inr (.escaped he (head_ne_of_not_cons hk)))
  · by_cases hk : ∃ t, k = '\'' :: t
    · obtain ⟨t, rfl⟩ := hk
      exact .inl ⟨_, _, .plain hb hq⟩
    · exact .inr (.inr (.plain hb hq (head_ne_of_not_cons hk)))

theorem CharacterRead.suffix (h : CharacterRead u c k) : k <:+ u := by
  cases h with
  | escaped h => exact List.suffix_append ['\\', _, '\''] k
  | plain hb hq => exact List.suffix_append [_, '\''] k

end

/-! ### Numbers and keywords -/

/-- A number, a boolean or nil. -/
def literal : Reads Value :=
  choice (.float <$> float) [.int <$> int, .bool <$> bool, (fun _ => .nil) <$> nil]

theorem leavesEnd_ahead (p : Char → Bool) : LeavesEnd (ahead p) := by
  intro cs a k h
  have hk : k = cs := by
    unfold ahead at h
    split at h
    · cases h
      rfl
    · split at h
      · cases h
        rfl
      · cases h
  subst hk
  exact List.suffix_refl k

theorem dropSign_suffix (cs : List Char) : dropSign cs <:+ cs := by
  unfold dropSign
  split
  · exact List.suffix_cons ..
  · exact List.suffix_cons ..
  · exact List.suffix_refl _

theorem dropExponent_suffix (cs : List Char) : dropExponent cs <:+ cs := by
  unfold dropExponent
  split
  · exact List.suffix_refl _
  · next c r =>
    dsimp only
    split
    · exact ((List.dropWhile_suffix _).trans (dropSign_suffix r)).trans (List.suffix_cons ..)
    · exact List.suffix_refl _

/-- Dropping a run that is there takes something. -/
theorem length_dropWhile_lt {p : Char → Bool} {cs : List Char}
    (h : (cs.takeWhile p).isEmpty = false) : (cs.dropWhile p).length < cs.length := by
  have hsplit := congrArg List.length (List.takeWhile_append_dropWhile (p := p) (l := cs))
  have hpos : 0 < (cs.takeWhile p).length := List.length_pos_iff.2 (by simpa using h)
  rw [List.length_append] at hsplit
  omega

theorem takesSome_intLexeme : intLexeme.TakesSome := by
  intro cs a r h
  unfold intLexeme at h
  dsimp only at h
  split at h
  · cases h
  · next hd =>
    cases h
    have hsign := dropSign_suffix cs
    have hlt := length_dropWhile_lt (by simpa using hd)
    exact ⟨(List.dropWhile_suffix _).trans hsign, Nat.lt_of_lt_of_le hlt hsign.length_le⟩

theorem takesSome_floatLexeme : floatLexeme.TakesSome := by
  intro cs a r h
  unfold floatLexeme at h
  dsimp only at h
  split at h
  · cases h
  next hd =>
  split at h
  · next fs hpoint =>
    split at h
    · cases h
    · cases h
      have hsign := dropSign_suffix cs
      have hlt := length_dropWhile_lt (by simpa using hd)
      have hfs : fs <:+ (dropSign cs).dropWhile Char.isDigit := by
        rw [hpoint]
        exact List.suffix_cons ..
      have hrest := (dropExponent_suffix (fs.dropWhile Char.isDigit)).trans
        ((List.dropWhile_suffix _).trans hfs)
      refine ⟨(hrest.trans (List.dropWhile_suffix _)).trans hsign, ?_⟩
      exact Nat.lt_of_le_of_lt hrest.length_le (Nat.lt_of_lt_of_le hlt hsign.length_le)
  · cases h

theorem takesSome_token {l : Lexeme (List Char)} (h : l.TakesSome) :
    TakesSome (terminated (lex l) (ahead isBoundary) : Reads (List Char)) :=
  h.lex.terminated (leavesEnd_ahead _)

theorem takesSome_int : TakesSome int := by
  intro cs i k h
  unfold int at h
  cases hp : (terminated (lex intLexeme) (ahead isBoundary) : Reads (List Char)) cs with
  | error e => simp [hp, bind, Except.bind] at h
  | ok x =>
    have hx := takesSome_token takesSome_intLexeme cs x.1 x.2 hp
    simp only [hp, bind, Except.bind] at h
    split at h
    · cases h
      exact hx
    · cases h

theorem takesSome_keyword {w : List Char} (hw : w ≠ []) : TakesSome (keyword w) :=
  takesSome_token (Lexeme.takesSome_word hw)

theorem takesSome_literal : TakesSome literal := by
  refine .choice ?_ ?_
  · exact ((takesSome_token takesSome_floatLexeme).bind fun _ => leavesEnd_pure _).map
  · intro p hp
    simp only [List.mem_cons, List.not_mem_nil, or_false] at hp
    obtain rfl | rfl | rfl := hp
    · exact takesSome_int.map
    · refine TakesSome.map (.orElse ?_ ?_)
      · exact (takesSome_keyword (by simp)).bind fun _ => leavesEnd_pure _
      · exact (takesSome_keyword (by simp)).bind fun _ => leavesEnd_pure _
    · exact TakesSome.map (TakesSome.bind (takesSome_keyword (by simp)) fun _ => leavesEnd_pure ())

/-! ### Broken literals -/

theorem intLexeme_ne_broken (cs stop : List Char) : intLexeme cs ≠ .broken stop := by
  unfold intLexeme
  dsimp only
  split
  · simp
  · simp

theorem floatLexeme_ne_broken (cs stop : List Char) : floatLexeme cs ≠ .broken stop := by
  unfold floatLexeme
  dsimp only
  split
  · simp
  split
  · split
    · simp
    · simp
  · simp

theorem neverCuts_ahead (p : Char → Bool) : NeverCuts (ahead p) := by
  intro cs f h
  unfold ahead at h
  split at h
  · cases h
  · split at h
    · cases h
    · cases h

theorem neverCuts_token {l : Lexeme (List Char)} (h : ∀ cs stop, l cs ≠ .broken stop) :
    NeverCuts (terminated (lex l) (ahead isBoundary) : Reads (List Char)) :=
  (NeverCuts.lex h).terminated (neverCuts_ahead _)

theorem neverCuts_keyword (w : List Char) : NeverCuts (keyword w) :=
  neverCuts_token (Lexeme.word_ne_broken w)

theorem kind_of_int {cs : List Char} {f : Fault} (h : int cs = .error (.cut f)) :
    f.cause.kind = .limit := by
  unfold int at h
  cases hp : (terminated (lex intLexeme) (ahead isBoundary) : Reads (List Char)) cs with
  | error e =>
    simp only [hp, bind, Except.bind] at h
    cases h
    exact absurd hp (neverCuts_token intLexeme_ne_broken cs f)
  | ok x =>
    simp only [hp, bind, Except.bind] at h
    split at h
    · cases h
    · cases h
      rfl

/-- A literal that is broken is an integer out of range. -/
theorem kind_of_literal {cs : List Char} {f : Fault} (h : literal cs = .error (.cut f)) :
    f.cause.kind = .limit := by
  have hfloat : NeverCuts float :=
    (neverCuts_token floatLexeme_ne_broken).bind fun _ => neverCuts_pure _
  have hbool : NeverCuts bool :=
    ((neverCuts_keyword _).bind fun _ => neverCuts_pure _).orElse
      ((neverCuts_keyword _).bind fun _ => neverCuts_pure _)
  have hnil : NeverCuts nil := (neverCuts_keyword _).bind fun _ => neverCuts_pure ()
  obtain ⟨q, hq, hchoice⟩ := exists_choice_eq (.float <$> float)
    [.int <$> int, .bool <$> bool, (fun _ => Value.nil) <$> nil] cs
  unfold literal at h
  rw [hchoice] at h
  simp only [List.mem_cons, List.not_mem_nil, or_false] at hq
  obtain rfl | rfl | rfl | rfl := hq
  · exact absurd h (hfloat.map _ cs f)
  · exact kind_of_int (error_of_map h)
  · exact absurd h (hbool.map _ cs f)
  · exact absurd h (hnil.map _ cs f)

end HostLisp.Reader
