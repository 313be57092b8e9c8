import HostLisp.Proofs.Reading.Token
import HostLisp.Value.Printer

/-!
# Literals read back

Each literal parser takes the text of its own literals, whole and in one piece.  Strings and
characters close themselves; numbers and keywords need a boundary behind them.
-/

namespace HostLisp.Text

/-- A character of a literal is written as it is, or behind a backslash. -/
theorem escaped_cases (d c : Char) :
    (escaped d c = [c] ∧ c ≠ '\\' ∧ c ≠ d) ∨ ∃ e, escaped d c = ['\\', e] := by
  unfold escaped
  split
  · exact .inr ⟨_, rfl⟩
  next hb =>
  split
  · exact .inr ⟨_, rfl⟩
  split
  · exact .inr ⟨_, rfl⟩
  split
  · exact .inr ⟨_, rfl⟩
  split
  · exact .inr ⟨_, rfl⟩
  · next hd => exact .inl ⟨rfl, hb, hd⟩

end HostLisp.Text

namespace HostLisp.Reader

open Parsing Text

/-! ### Strings and characters -/

theorem stringBody_escape {start cs : List Char} {e c : Char} (h : unescape? e = some c) :
    stringBody start ('\\' :: e :: cs) =
      (stringBody start cs).map fun (s, rest) => (c :: s, rest) := by
  simp only [stringBody, h]

theorem stringBody_cons {start cs : List Char} {c : Char} (hb : c ≠ '\\') (hq : c ≠ '"') :
    stringBody start (c :: cs) = (stringBody start cs).map fun (s, rest) => (c :: s, rest) := by
  simp [stringBody, hb, hq]

theorem stringBody_append (start cs k : List Char) :
    stringBody start (cs.flatMap (escaped '"') ++ '"' :: k) = .ok (cs, k) := by
  induction cs with
  | nil => simp [stringBody]
  | cons c cs ih =>
    rw [List.flatMap_cons, List.append_assoc]
    obtain ⟨hc, hb, hq⟩ | ⟨e, he⟩ := escaped_cases '"' c
    · rw [hc, List.singleton_append, stringBody_cons hb hq, ih]
      rfl
    · rw [he, List.cons_append, List.singleton_append,
        stringBody_escape (unescape?_of_escaped (.inl rfl) he), ih]
      rfl

theorem string_append (s : String) (k : List Char) :
    string ((Value.string s).chars ++ k) = .ok (s, k) := by
  have hbody := stringBody_append ((Value.string s).chars ++ k) s.toList k
  have htext : (Value.string s).chars ++ k =
      '"' :: (s.toList.flatMap (escaped '"') ++ '"' :: k) := by
    simp [Value.chars]
  rw [htext] at hbody ⊢
  simp only [string, char_cons, bind, Except.bind, hbody, String.ofList_toList]

theorem backtracks_string {cs : List Char} (h : ∀ c ∈ cs.head?, c ≠ '"') :
    Backtracks string cs := by
  obtain ⟨e, he⟩ := backtracks_char h
  exact ⟨e, by simp only [string, he, bind, Except.bind]⟩

theorem escape_of_unescape? {e c : Char} (h : unescape? e = some c) (k : List Char) :
    escape ('\\' :: e :: k) = .ok (c, k) := by
  simp only [escape, char_cons, bind, Except.bind, h]

theorem backtracks_escape {cs : List Char} (h : ∀ c ∈ cs.head?, c ≠ '\\') :
    Backtracks escape cs := by
  obtain ⟨e, he⟩ := backtracks_char h
  exact ⟨e, by simp only [escape, he, bind, Except.bind]⟩

/-- The inside of a character literal, in front of any text. -/
theorem character_inside (c : Char) (k : List Char) :
    orElse escape (satisfy (· ≠ '\'')) (escaped '\'' c ++ k) = .ok (c, k) := by
  obtain ⟨hc, hb, hq⟩ | ⟨e, he⟩ := escaped_cases '\'' c
  · rw [hc, List.singleton_append]
    have hesc : Backtracks escape (c :: k) := backtracks_escape (by rintro d ⟨⟩; exact hb)
    rw [orElse_of_backtracks hesc, satisfy_cons (by simpa using hq)]
  · rw [he]
    exact orElse_of_ok (escape_of_unescape? (unescape?_of_escaped (.inr rfl) he) k)

theorem character_append (c : Char) (k : List Char) :
    character ((Value.char c).chars ++ k) = .ok (c, k) := by
  have htext : (Value.char c).chars ++ k = '\'' :: (escaped '\'' c ++ '\'' :: k) := by
    simp [Value.chars]
  rw [htext]
  exact between_of_ok (char_cons '\'' _) (character_inside c _) (char_cons '\'' k)

theorem backtracks_character {cs : List Char} (h : ∀ c ∈ cs.head?, c ≠ '\'') :
    Backtracks character cs := (backtracks_char h).between

/-- A quote mark in front of one character that no second mark follows. -/
theorem backtracks_character_mark {c : Char} {cs : List Char} (hc : c ≠ '\'') (hb : c ≠ '\\')
    (h : ∀ e ∈ cs.head?, e ≠ '\'') : Backtracks character ('\'' :: c :: cs) := by
  have hesc : Backtracks escape (c :: cs) := backtracks_escape (by rintro d ⟨⟩; exact hb)
  have hinside : orElse escape (satisfy (· ≠ '\'')) (c :: cs) = .ok (c, cs) := by
    rw [orElse_of_backtracks hesc, satisfy_cons (by simpa using hc)]
  exact .bind_right (char_cons '\'' _) (.bind_right hinside (backtracks_char h).bind)

/-! ### Integers -/

theorem isNameChar_of_mem_digits {n : Nat} {c : Char} (h : c ∈ Decimal.digits n) :
    isNameChar c = true := isNameChar_of_isDigit (Decimal.isDigit_of_mem_digits h)

theorem dropSign_of_isDigit {cs : List Char} (h : ∀ c ∈ cs, c.isDigit = true) :
    dropSign cs = cs := by
  unfold dropSign
  split
  · exact absurd (h '+' List.mem_cons_self) (by decide)
  · exact absurd (h '-' List.mem_cons_self) (by decide)
  · rfl

theorem splitSign_of_isDigit {cs : List Char} (h : ∀ c ∈ cs, c.isDigit = true) :
    Decimal.splitSign cs = (false, cs) := by
  unfold Decimal.splitSign
  split
  · exact absurd (h '-' List.mem_cons_self) (by decide)
  · exact absurd (h '+' List.mem_cons_self) (by decide)
  · rfl

theorem isNameChar_of_mem_signed {i : Int} {c : Char} (h : c ∈ Decimal.signed i) :
    isNameChar c = true := by
  unfold Decimal.signed at h
  split at h
  · obtain rfl | h := List.mem_cons.1 h
    · decide
    · exact isNameChar_of_mem_digits h
  · exact isNameChar_of_mem_digits h

theorem dropSign_signed (i : Int) : dropSign (Decimal.signed i) = Decimal.digits i.natAbs := by
  unfold Decimal.signed
  split
  · rfl
  · exact dropSign_of_isDigit fun c hc => Decimal.isDigit_of_mem_digits hc

theorem intValue_signed (i : Int) : intValue (Decimal.signed i) = i := by
  unfold Decimal.signed
  split
  · show -(Decimal.value (Decimal.digits i.natAbs) : Int) = i
    rw [Decimal.value_digits]
    omega
  · have hsign := splitSign_of_isDigit fun c (hc : c ∈ Decimal.digits i.natAbs) =>
      Decimal.isDigit_of_mem_digits hc
    simp only [intValue, hsign, Decimal.value_digits, Bool.false_eq_true, if_false]
    omega

theorem exists_cons_signed (i : Int) :
    ∃ c cs, Decimal.signed i = c :: cs ∧ isNameChar c = true := by
  cases hd : Decimal.signed i with
  | nil =>
    have hdrop := dropSign_signed i
    rw [hd] at hdrop
    exact absurd hdrop.symm (Decimal.digits_ne_nil _)
  | cons c cs => exact ⟨c, cs, rfl, isNameChar_of_mem_signed (hd ▸ List.mem_cons_self)⟩

theorem int_signed (i : Int64) {k : List Char} (hk : Stops k) :
    int ((Value.int i).chars ++ k) = .ok (i, k) := by
  have hlo : -9_223_372_036_854_775_808 ≤ i.toInt := i.le_toInt
  have hhi : i.toInt < 9_223_372_036_854_775_808 := i.toInt_lt
  have h := int_append (n := Decimal.signed i.toInt) hk
    (by rw [dropSign_signed]; exact Decimal.digits_ne_nil _)
    (by rw [dropSign_signed]; exact fun c hc => Decimal.isDigit_of_mem_digits hc)
    (by rwa [intValue_signed]) (by rwa [intValue_signed])
  rwa [intValue_signed, Int64.ofInt_toInt] at h

/-! ### Booleans and nil -/

theorem bool_append (b : Bool) {k : List Char} (hk : Stops k) :
    bool ((Value.bool b).chars ++ k) = .ok (b, k) := by
  cases b with
  | true => exact orElse_of_ok (bind_of_ok (keyword_append ['t', 'r', 'u', 'e'] hk))
  | false =>
    have ht : Backtracks (keyword ['t', 'r', 'u', 'e']) ((Value.bool false).chars ++ k) :=
      backtracks_keyword (List.all_eq_true.1 rfl) hk.endsName (List.all_eq_true.1 rfl)
        (by simp [Value.chars])
    unfold bool
    rw [orElse_of_backtracks ht.bind]
    exact bind_of_ok (keyword_append ['f', 'a', 'l', 's', 'e'] hk)

theorem nil_append {k : List Char} (hk : Stops k) : nil (Value.nil.chars ++ k) = .ok ((), k) :=
  bind_of_ok (keyword_append ['n', 'i', 'l'] hk)

section
variable {n k : List Char}

theorem backtracks_bool (hk : EndsName k) (hn : ∀ c ∈ n, isNameChar c = true)
    (h : n = ['t', 'r', 'u', 'e'] ∨ n = ['f', 'a', 'l', 's', 'e'] →
      ∃ c ∈ k.head?, isBoundary c = false) : Backtracks bool (n ++ k) := by
  have ht := backtracks_keyword (w := ['t', 'r', 'u', 'e']) (List.all_eq_true.1 rfl) hk hn
    fun e => h (.inl e)
  have hf := backtracks_keyword (w := ['f', 'a', 'l', 's', 'e']) (List.all_eq_true.1 rfl) hk hn
    fun e => h (.inr e)
  exact ht.bind.orElse hf.bind

theorem backtracks_nil (hk : EndsName k) (hn : ∀ c ∈ n, isNameChar c = true)
    (h : n = ['n', 'i', 'l'] → ∃ c ∈ k.head?, isBoundary c = false) : Backtracks nil (n ++ k) :=
  (backtracks_keyword (List.all_eq_true.1 rfl) hk hn h).bind

end

end HostLisp.Reader
