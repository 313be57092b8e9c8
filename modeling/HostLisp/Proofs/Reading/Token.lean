import HostLisp.Proofs.Parsing.Outcome
import HostLisp.Reader.Node
import Mathlib.Data.List.TakeWhile

/-!
# Who takes a token

Nine alternatives compete for every node.  A text that begins with a boundary (a delimiter, white
space, or nothing at all) is no number, keyword or name.  A text that begins with name characters is
a number or a keyword only if a boundary follows right behind the digits or the word.
-/

namespace HostLisp.Reader

open Parsing

/-! ### Characters -/

/-- A character of a name neither ends a number nor is a delimiter. -/
theorem isBoundary_of_isNameChar {c : Char} (h : isNameChar c = true) : isBoundary c = false := by
  simp only [isNameChar, isBoundary, Bool.not_eq_true', Bool.or_eq_false_iff,
    List.contains_eq_mem, List.mem_cons, List.not_mem_nil, or_false, decide_eq_false_iff_not]
    at h ⊢
  grind

theorem isNameChar_of_isBoundary {c : Char} (h : isBoundary c = true) : isNameChar c = false := by
  rw [Bool.eq_false_iff]
  intro hn
  rw [isBoundary_of_isNameChar hn] at h
  cases h

theorem isNameChar_of_isDigit {c : Char} (h : c.isDigit = true) : isNameChar c = true := by
  have hr : 48 ≤ c.toNat ∧ c.toNat ≤ 57 := by
    simpa [Char.isDigit, UInt32.le_iff_toNat_le] using h
  have hblank : Text.isBlank c = false := by
    rw [Bool.eq_false_iff]
    intro hb
    obtain ⟨r, hr', hlo, hhi⟩ := Text.CharClass.mem_iff.1 hb
    simp only [Text.blankClass, List.mem_cons, List.not_mem_nil, or_false] at hr'
    rcases hr' with rfl | rfl | rfl | rfl | rfl | rfl | rfl | rfl | rfl | rfl <;> omega
  have hmarks : ['\'', '[', ']', '(', ')', '"', ':', '.'].contains c = false := by
    rw [Bool.eq_false_iff]
    intro hm
    simp only [List.contains_eq_mem, List.mem_cons, List.not_mem_nil, or_false,
      decide_eq_true_eq] at hm
    rcases hm with rfl | rfl | rfl | rfl | rfl | rfl | rfl | rfl <;> revert h <;> decide
  simp only [isNameChar, hblank, hmarks, Bool.or_self, Bool.not_false]

/-- The text does not go on with a name. -/
def EndsName (cs : List Char) : Prop := ∀ c ∈ cs.head?, isNameChar c = false

/-- The text begins with a boundary, or is empty. -/
def Stops (cs : List Char) : Prop := ∀ c ∈ cs.head?, isBoundary c = true

theorem Stops.endsName {cs : List Char} (h : Stops cs) : EndsName cs := fun c hc =>
  isNameChar_of_isBoundary (h c hc)

/-- What is true of the first character. -/
theorem head?_cons_of {P : Char → Prop} {c : Char} (h : P c) (cs : List Char) :
    ∀ d ∈ (c :: cs).head?, P d := by
  rintro d ⟨⟩
  exact h

theorem Stops.cons {c : Char} {cs : List Char} (h : isBoundary c = true) : Stops (c :: cs) :=
  head?_cons_of h cs

theorem EndsName.cons {c : Char} {cs : List Char} (h : isNameChar c = false) : EndsName (c :: cs) :=
  head?_cons_of h cs

theorem EndsName.takeWhile_eq_nil {cs : List Char} (h : EndsName cs) {p : Char → Bool}
    (hp : ∀ c, p c = true → isNameChar c = true) : cs.takeWhile p = [] := by
  cases cs with
  | nil => rfl
  | cons c cs =>
    refine List.takeWhile_cons_of_neg fun hc => ?_
    have := h c rfl
    rw [hp c hc] at this
    cases this

theorem EndsName.dropWhile_eq_self {cs : List Char} (h : EndsName cs) {p : Char → Bool}
    (hp : ∀ c, p c = true → isNameChar c = true) : cs.dropWhile p = cs := by
  have hsplit := List.takeWhile_append_dropWhile (p := p) (l := cs)
  rwa [h.takeWhile_eq_nil hp, List.nil_append] at hsplit

/-! ### Marks -/

theorem char_cons (c : Char) (cs : List Char) : char c (c :: cs) = .ok (c, cs) :=
  satisfy_cons (by simp)

theorem backtracks_char {c : Char} {cs : List Char} (h : ∀ d ∈ cs.head?, d ≠ c) :
    Backtracks (char c) cs :=
  backtracks_satisfy fun d hd => decide_eq_false (h d hd)

theorem ahead_of_stops {cs : List Char} (h : Stops cs) : ahead isBoundary cs = .ok ((), cs) := by
  cases cs with
  | nil => rfl
  | cons c cs =>
    have hc : isBoundary c = true := h c rfl
    simp [ahead, hc]

theorem backtracks_ahead {cs : List Char} (h : ∃ c ∈ cs.head?, isBoundary c = false) :
    Backtracks (ahead isBoundary) cs := by
  obtain ⟨c, hc, hb⟩ := h
  cases cs with
  | nil => cases hc
  | cons d cs =>
    cases hc
    exact ⟨Fault.unexpectedAt (c :: cs), by simp [ahead, hb]⟩

theorem backtracks_ahead_of_not_stops {cs : List Char} (h : ¬ Stops cs) :
    Backtracks (ahead isBoundary) cs := by
  refine backtracks_ahead ?_
  simpa [Stops] using h

/-- A text that goes on with a name is not at a boundary. -/
theorem backtracks_ahead_name {n k : List Char} (hn : ∀ c ∈ n, isNameChar c = true)
    (hne : n ≠ []) : Backtracks (ahead isBoundary) (n ++ k) := by
  cases n with
  | nil => exact absurd rfl hne
  | cons c n =>
    exact backtracks_ahead ⟨c, rfl, isBoundary_of_isNameChar (hn c List.mem_cons_self)⟩

/-! ### Numbers and keywords

The text is a run `n` of name characters, which may be empty, and what follows it. -/

section
variable {n k : List Char}

theorem mem_dropSign {c : Char} (h : c ∈ dropSign n) : c ∈ n := by
  unfold dropSign at h
  split at h
  · exact List.mem_cons_of_mem _ h
  · exact List.mem_cons_of_mem _ h
  · exact h

theorem dropSign_append (hk : EndsName k) : dropSign (n ++ k) = dropSign n ++ k := by
  cases n with
  | nil =>
    show dropSign k = k
    unfold dropSign
    split
    · exact absurd (hk '+' rfl) (by decide)
    · exact absurd (hk '-' rfl) (by decide)
    · rfl
  | cons c n =>
    rw [List.cons_append]
    by_cases hp : c = '+'
    · subst hp
      rfl
    by_cases hm : c = '-'
    · subst hm
      rfl
    simp [dropSign, hp, hm]

/-- A run of digits ends where a name does. -/
theorem digits_append (hk : EndsName k) :
    (n ++ k).takeWhile Char.isDigit = n.takeWhile Char.isDigit ∧
      (n ++ k).dropWhile Char.isDigit = n.dropWhile Char.isDigit ++ k := by
  constructor
  · rw [List.takeWhile_append, hk.takeWhile_eq_nil fun c hc => isNameChar_of_isDigit hc,
      List.append_nil]
    split
    · next h =>
      exact (List.IsPrefix.eq_of_length (List.takeWhile_prefix _) h).symm
    · rfl
  · rw [List.dropWhile_append, hk.dropWhile_eq_self fun c hc => isNameChar_of_isDigit hc]
    split
    · next h =>
      rw [List.isEmpty_iff.1 h, List.nil_append]
    · rfl

theorem takeWhile_digits (hk : EndsName k) :
    (dropSign (n ++ k)).takeWhile Char.isDigit = (dropSign n).takeWhile Char.isDigit := by
  rw [dropSign_append hk]
  exact (digits_append hk).1

theorem dropWhile_digits (hk : EndsName k) :
    (dropSign (n ++ k)).dropWhile Char.isDigit = (dropSign n).dropWhile Char.isDigit ++ k := by
  rw [dropSign_append hk]
  exact (digits_append hk).2

/-- Without a point behind the digits there is no float. -/
theorem backtracks_float (hk : EndsName k) (hn : ∀ c ∈ n, isNameChar c = true)
    (hpoint : (dropSign n).takeWhile Char.isDigit = [] ∨ ∀ c ∈ k.head?, c ≠ '.') :
    Backtracks float (n ++ k) := by
  have hlex : ∃ stop, floatLexeme (n ++ k) = .mismatch stop := by
    simp only [floatLexeme, takeWhile_digits hk, dropWhile_digits hk]
    split
    · exact ⟨_, rfl⟩
    · next hdigits =>
      have hstop : ∀ c ∈ ((dropSign n).dropWhile Char.isDigit ++ k).head?, c ≠ '.' := by
        cases hrest : (dropSign n).dropWhile Char.isDigit with
        | nil => exact hpoint.resolve_left fun h => hdigits (List.isEmpty_iff.2 h)
        | cons c r =>
          have hc : isNameChar c = true := hn c <| mem_dropSign <|
            (List.dropWhile_suffix _).subset (hrest ▸ List.mem_cons_self)
          rintro d ⟨⟩ rfl
          exact absurd hc (by decide)
      split
      · next fs heq => exact absurd rfl (hstop '.' (by rw [heq]; rfl))
      · exact ⟨_, rfl⟩
  obtain ⟨stop, hlex⟩ := hlex
  exact (backtracks_lex hlex).terminated.bind

theorem upTo_append (w k : List Char) : upTo (w ++ k) k = w := by
  simp [upTo]

/-- Digits in front of anything but a boundary are no integer. -/
theorem backtracks_int (hk : EndsName k) (hn : ∀ c ∈ n, isNameChar c = true)
    (h : (dropSign n).takeWhile Char.isDigit = [] ∨ (dropSign n).dropWhile Char.isDigit ≠ [] ∨
      ∃ c ∈ k.head?, isBoundary c = false) :
    Backtracks int (n ++ k) := by
  have hp : Backtracks (terminated (lex intLexeme) (ahead isBoundary)) (n ++ k) := by
    by_cases hdigits : (dropSign n).takeWhile Char.isDigit = []
    · have hlex : intLexeme (n ++ k) = .mismatch (dropSign (n ++ k)) := by
        simp [intLexeme, takeWhile_digits hk, hdigits]
      exact (backtracks_lex hlex).terminated
    · have hlex : intLexeme (n ++ k) = .found
          (upTo (n ++ k) ((dropSign n).dropWhile Char.isDigit ++ k))
          ((dropSign n).dropWhile Char.isDigit ++ k) := by
        simp only [intLexeme, takeWhile_digits hk, dropWhile_digits hk, List.isEmpty_iff, hdigits,
          if_false]
      refine .terminated_right (lex_of_found hlex) ?_
      by_cases hrest : (dropSign n).dropWhile Char.isDigit = []
      · rw [hrest, List.nil_append]
        exact backtracks_ahead ((h.resolve_left hdigits).resolve_left (absurd hrest))
      · refine backtracks_ahead_name (fun c hc => hn c ?_) hrest
        exact mem_dropSign ((List.dropWhile_suffix _).subset hc)
  obtain ⟨e, he⟩ := hp
  exact ⟨e, by simp only [int, he, bind, Except.bind]⟩

/-- A sign and digits are taken whole in front of a boundary. -/
theorem intToken_append (hk : Stops k) (hne : dropSign n ≠ [])
    (hdigits : ∀ c ∈ dropSign n, c.isDigit = true) :
    terminated (lex intLexeme) (ahead isBoundary) (n ++ k) = .ok (n, k) := by
  have htake : (dropSign n).takeWhile Char.isDigit = dropSign n :=
    List.takeWhile_eq_self_iff.2 hdigits
  have hdrop : (dropSign n).dropWhile Char.isDigit = [] := List.dropWhile_eq_nil_iff.2 hdigits
  have hlex : intLexeme (n ++ k) = .found n k := by
    simp only [intLexeme, takeWhile_digits hk.endsName, dropWhile_digits hk.endsName, htake, hdrop,
      List.isEmpty_iff, hne, if_false, List.nil_append, upTo_append]
  exact terminated_of_ok (lex_of_found hlex) (ahead_of_stops hk)

/-- A sign and digits, in front of a boundary, are taken as an integer. -/
theorem int_append (hk : Stops k) (hne : dropSign n ≠ [])
    (hdigits : ∀ c ∈ dropSign n, c.isDigit = true) (hlo : -9_223_372_036_854_775_808 ≤ intValue n)
    (hhi : intValue n < 9_223_372_036_854_775_808) :
    int (n ++ k) = .ok (Int64.ofInt (intValue n), k) := by
  simp only [int, intToken_append hk hne hdigits, bind, Except.bind, hlo, hhi, and_self, if_true]

theorem keyword_append (w : List Char) (hk : Stops k) : keyword w (w ++ k) = .ok (w, k) :=
  terminated_of_ok (lex_of_found (Lexeme.word_append w k)) (ahead_of_stops hk)

/-- A keyword is not taken from the front of a longer name, nor where no boundary follows. -/
theorem backtracks_keyword {w : List Char} (hw : ∀ c ∈ w, isNameChar c = true) (hk : EndsName k)
    (hn : ∀ c ∈ n, isNameChar c = true) (h : n = w → ∃ c ∈ k.head?, isBoundary c = false) :
    Backtracks (keyword w) (n ++ k) := by
  by_cases hp : w <+: n ++ k
  · have htake : (n ++ k).takeWhile isNameChar = n := by
      rw [List.takeWhile_append_of_pos hn, hk.takeWhile_eq_nil fun _ hc => hc, List.append_nil]
    have hwn : w <+: n := by
      obtain ⟨t, ht⟩ := hp
      rw [← ht, List.takeWhile_append_of_pos hw] at htake
      exact ⟨_, htake⟩
    obtain ⟨r, rfl⟩ := hwn
    rw [List.append_assoc]
    refine .terminated_right (lex_of_found (Lexeme.word_append w (r ++ k))) ?_
    by_cases hr : r = []
    · subst hr
      exact backtracks_ahead (h (List.append_nil w))
    · exact backtracks_ahead_name (fun c hc => hn c (List.mem_append_right w hc)) hr
  · exact (backtracks_lex (Lexeme.word_eq_mismatch hp)).terminated

end

end HostLisp.Reader
