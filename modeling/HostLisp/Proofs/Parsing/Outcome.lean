import HostLisp.Parsing.Lexeme

/-!
# Outcomes of combinators

What a combined parser does, from what its parts do.  A part succeeds, and then the next one runs
where it stopped; or it backtracks, and then the next alternative runs from the same place; or it
cuts, and then the whole parse ends.

Which error a part backtracks with matters only for the last alternative, so `Backtracks` does not
say which one it is.
-/

namespace HostLisp.Parsing

variable {ι τ ε α β γ : Type}

/-- The parser fails on this input and leaves the caller a choice. -/
def Backtracks (p : Parser ι ε α) (i : ι) : Prop := ∃ e, p i = .error (.backtrack e)

theorem not_backtracks_of_ok {p : Parser ι ε α} {i : ι} {x : α × ι} (h : p i = .ok x) :
    ¬ Backtracks p i := by
  rintro ⟨e, he⟩
  rw [h] at he
  cases he

theorem not_backtracks_of_cut {p : Parser ι ε α} {i : ι} {e : ε} (h : p i = .error (.cut e)) :
    ¬ Backtracks p i := by
  rintro ⟨e', he⟩
  rw [h] at he
  cases he

/-! ### One after the other -/

theorem bind_apply (p : Parser ι ε α) (f : α → Parser ι ε β) (i : ι) :
    (p >>= f) i =
      match p i with
      | .ok (a, r) => f a r
      | .error e => .error e := by
  show StateT.bind p f i = _
  simp only [StateT.bind, bind, Except.bind]
  cases p i with
  | ok x => rfl
  | error e => rfl

theorem bind_of_ok {p : Parser ι ε α} {f : α → Parser ι ε β} {i r : ι} {a : α}
    (h : p i = .ok (a, r)) : (p >>= f) i = f a r := by
  rw [bind_apply, h]

theorem bind_of_error {p : Parser ι ε α} {f : α → Parser ι ε β} {i : ι} {e : Fail ε}
    (h : p i = .error e) : (p >>= f) i = .error e := by
  rw [bind_apply, h]

@[simp] theorem pure_apply (a : α) (i : ι) : (pure a : Parser ι ε α) i = .ok (a, i) := rfl

theorem map_apply (p : Parser ι ε α) (f : α → β) (i : ι) :
    (f <$> p) i = (p i).map fun (a, r) => (f a, r) := by
  show StateT.map f p i = _
  simp only [StateT.map, bind, Except.bind]
  cases p i with
  | ok x => rfl
  | error e => rfl

theorem map_of_ok {p : Parser ι ε α} (f : α → β) {i r : ι} {a : α} (h : p i = .ok (a, r)) :
    (f <$> p) i = .ok (f a, r) := by
  show StateT.map f p i = _
  simp [StateT.map, bind, Except.bind, h, pure, Except.pure]

theorem map_of_error {p : Parser ι ε α} (f : α → β) {i : ι} {e : Fail ε} (h : p i = .error e) :
    (f <$> p) i = .error e := by
  show StateT.map f p i = _
  simp [StateT.map, bind, Except.bind, h]

theorem error_of_map {p : Parser ι ε α} {f : α → β} {i : ι} {e : Fail ε}
    (h : (f <$> p) i = .error e) : p i = .error e := by
  rw [map_apply] at h
  cases hp : p i with
  | ok x =>
    rw [hp] at h
    cases h
  | error e' =>
    rw [hp] at h
    cases h
    rfl

/-- A result of a mapped parser comes from a result of the parser. -/
theorem exists_of_map {p : Parser ι ε α} {f : α → β} {i r : ι} {b : β}
    (h : (f <$> p) i = .ok (b, r)) : ∃ a, p i = .ok (a, r) ∧ f a = b := by
  cases hp : p i with
  | error e =>
    rw [map_of_error f hp] at h
    cases h
  | ok x =>
    rw [map_of_ok f hp] at h
    cases h
    exact ⟨x.1, rfl, rfl⟩

theorem Backtracks.bind {p : Parser ι ε α} {f : α → Parser ι ε β} {i : ι} (h : Backtracks p i) :
    Backtracks (p >>= f) i := by
  obtain ⟨e, he⟩ := h
  exact ⟨e, bind_of_error he⟩

theorem Backtracks.map {p : Parser ι ε α} {f : α → β} {i : ι} (h : Backtracks p i) :
    Backtracks (f <$> p) i := by
  obtain ⟨e, he⟩ := h
  exact ⟨e, map_of_error f he⟩

theorem Backtracks.of_map {p : Parser ι ε α} {f : α → β} {i : ι} (h : Backtracks (f <$> p) i) :
    Backtracks p i := by
  obtain ⟨e, he⟩ := h
  exact ⟨e, error_of_map he⟩

/-- The first part succeeds, so the second one decides. -/
theorem Backtracks.bind_right {p : Parser ι ε α} {f : α → Parser ι ε β} {i r : ι} {a : α}
    (hp : p i = .ok (a, r)) (hf : Backtracks (f a) r) : Backtracks (p >>= f) i := by
  obtain ⟨e, he⟩ := hf
  exact ⟨e, by rw [bind_of_ok hp, he]⟩

theorem preceded_of_ok {p : Parser ι ε α} {q : Parser ι ε β} {i r : ι} {a : α}
    (h : p i = .ok (a, r)) : preceded p q i = q r := by
  unfold preceded
  rw [bind_of_ok h]

theorem terminated_of_ok {p : Parser ι ε α} {q : Parser ι ε β} {i r k : ι} {a : α} {b : β}
    (hp : p i = .ok (a, r)) (hq : q r = .ok (b, k)) : terminated p q i = .ok (a, k) := by
  unfold terminated
  rw [bind_of_ok hp, bind_of_ok hq]
  rfl

theorem terminated_of_error {p : Parser ι ε α} {q : Parser ι ε β} {i : ι} {e : Fail ε}
    (h : p i = .error e) : terminated p q i = .error e := by
  unfold terminated
  rw [bind_of_error h]

theorem terminated_of_right_error {p : Parser ι ε α} {q : Parser ι ε β} {i r : ι} {a : α}
    {e : Fail ε} (hp : p i = .ok (a, r)) (hq : q r = .error e) : terminated p q i = .error e := by
  unfold terminated
  rw [bind_of_ok hp, bind_of_error hq]

theorem Backtracks.terminated {p : Parser ι ε α} {q : Parser ι ε β} {i : ι}
    (h : Backtracks p i) : Backtracks (terminated p q) i := h.bind

theorem Backtracks.terminated_right {p : Parser ι ε α} {q : Parser ι ε β} {i r : ι} {a : α}
    (hp : p i = .ok (a, r)) (hq : Backtracks q r) : Backtracks (Parsing.terminated p q) i :=
  .bind_right hp hq.bind

theorem exists_of_terminated {p : Parser ι ε α} {q : Parser ι ε β} {i k : ι} {a : α}
    (h : terminated p q i = .ok (a, k)) : ∃ r b, p i = .ok (a, r) ∧ q r = .ok (b, k) := by
  cases hp : p i with
  | error e =>
    rw [terminated_of_error hp] at h
    cases h
  | ok x =>
    cases hq : q x.2 with
    | error e =>
      rw [terminated_of_right_error hp hq] at h
      cases h
    | ok y =>
      rw [terminated_of_ok hp hq] at h
      cases h
      exact ⟨x.2, y.1, rfl, hq⟩

/-- A second part that never backtracks leaves that to the first one. -/
theorem Backtracks.of_terminated {p : Parser ι ε α} {q : Parser ι ε β} {i : ι}
    (h : Backtracks (Parsing.terminated p q) i) (hq : ∀ r, ¬ Backtracks q r) : Backtracks p i := by
  obtain ⟨e, he⟩ := h
  cases hp : p i with
  | error e' =>
    rw [terminated_of_error hp] at he
    cases he
    exact ⟨e, hp⟩
  | ok x =>
    cases hr : q x.2 with
    | error e' =>
      rw [terminated_of_right_error hp hr] at he
      cases he
      exact absurd ⟨e, hr⟩ (hq x.2)
    | ok y =>
      rw [terminated_of_ok hp hr] at he
      cases he

theorem Backtracks.preceded {p : Parser ι ε α} {q : Parser ι ε β} {i : ι}
    (h : Backtracks p i) : Backtracks (preceded p q) i := h.bind

theorem between_of_ok {left : Parser ι ε α} {p : Parser ι ε β} {right : Parser ι ε γ}
    {i r s k : ι} {a : α} {b : β} {c : γ} (hl : left i = .ok (a, r)) (hp : p r = .ok (b, s))
    (hr : right s = .ok (c, k)) : between left p right i = .ok (b, k) := by
  unfold between
  rw [bind_of_ok hl, bind_of_ok hp, bind_of_ok hr]
  rfl

theorem Backtracks.between {left : Parser ι ε α} {p : Parser ι ε β} {right : Parser ι ε γ}
    {i : ι} (h : Backtracks left i) : Backtracks (between left p right) i := h.bind

/-- What stands between the delimiters fails for good, and so does the whole. -/
theorem between_of_error {left : Parser ι ε α} {p : Parser ι ε β} {right : Parser ι ε γ}
    {i r : ι} {a : α} {e : Fail ε} (hl : left i = .ok (a, r)) (hp : p r = .error e) :
    between left p right i = .error e := by
  unfold between
  rw [bind_of_ok hl, bind_of_error hp]

/-! ### Alternatives -/

theorem orElse_of_ok {p q : Parser ι ε α} {i : ι} {x : α × ι} (h : p i = .ok x) :
    orElse p q i = .ok x := by
  unfold orElse
  rw [h]

theorem orElse_of_cut {p q : Parser ι ε α} {i : ι} {e : ε} (h : p i = .error (.cut e)) :
    orElse p q i = .error (.cut e) := by
  unfold orElse
  rw [h]

theorem orElse_of_backtracks {p q : Parser ι ε α} {i : ι} (h : Backtracks p i) :
    orElse p q i = q i := by
  obtain ⟨e, he⟩ := h
  unfold orElse
  rw [he]

theorem orElse_of_not_backtracks {p q : Parser ι ε α} {i : ι} (h : ¬ Backtracks p i) :
    orElse p q i = p i := by
  unfold orElse
  cases hp : p i with
  | ok x => rfl
  | error e =>
    cases e with
    | backtrack e => exact absurd ⟨e, hp⟩ h
    | cut e => rfl

theorem orElse_assoc (p q r : Parser ι ε α) : orElse (orElse p q) r = orElse p (orElse q r) := by
  funext i
  by_cases hp : Backtracks p i
  · rw [orElse_of_backtracks hp]
    unfold orElse
    obtain ⟨e, he⟩ := hp
    rw [he]
  · have hpq : orElse p q i = p i := orElse_of_not_backtracks hp
    have hne : ¬ Backtracks (orElse p q) i := fun ⟨e, he⟩ => hp ⟨e, hpq.symm.trans he⟩
    rw [orElse_of_not_backtracks hp, orElse_of_not_backtracks hne, hpq]

theorem Backtracks.orElse {p q : Parser ι ε α} {i : ι} (hp : Backtracks p i)
    (hq : Backtracks q i) : Backtracks (orElse p q) i := by
  obtain ⟨e, he⟩ := hq
  exact ⟨e, by rw [orElse_of_backtracks hp, he]⟩

theorem choice_of_ok {p : Parser ι ε α} {ps : List (Parser ι ε α)} {i : ι} {x : α × ι}
    (h : p i = .ok x) : choice p ps i = .ok x := by
  cases ps with
  | nil => exact h
  | cons q ps => exact orElse_of_ok h

theorem choice_of_cut {p : Parser ι ε α} {ps : List (Parser ι ε α)} {i : ι} {e : ε}
    (h : p i = .error (.cut e)) : choice p ps i = .error (.cut e) := by
  cases ps with
  | nil => exact h
  | cons q ps => exact orElse_of_cut h

theorem choice_of_backtracks {p q : Parser ι ε α} {ps : List (Parser ι ε α)} {i : ι}
    (h : Backtracks p i) : choice p (q :: ps) i = choice q ps i := orElse_of_backtracks h

/-- The alternatives after some others are tried where all of these backtrack. -/
theorem choice_append (p : Parser ι ε α) (ps : List (Parser ι ε α)) (q : Parser ι ε α)
    (qs : List (Parser ι ε α)) :
    choice p (ps ++ q :: qs) = orElse (choice p ps) (choice q qs) := by
  induction ps generalizing p with
  | nil => rfl
  | cons p' ps ih =>
    show orElse p (choice p' (ps ++ q :: qs)) = orElse (orElse p (choice p' ps)) (choice q qs)
    rw [ih, orElse_assoc]

/-- What comes of a choice comes of one of the alternatives. -/
theorem exists_choice_eq (p : Parser ι ε α) (ps : List (Parser ι ε α)) (i : ι) :
    ∃ q ∈ p :: ps, choice p ps i = q i := by
  induction ps generalizing p with
  | nil => exact ⟨p, List.mem_cons_self, rfl⟩
  | cons p' ps ih =>
    by_cases hp : Backtracks p i
    · obtain ⟨q, hq, hx⟩ := ih p'
      exact ⟨q, List.mem_cons_of_mem _ hq, (choice_of_backtracks hp).trans hx⟩
    · exact ⟨p, List.mem_cons_self, orElse_of_not_backtracks hp⟩

theorem exists_of_choice {p : Parser ι ε α} {ps : List (Parser ι ε α)} {i : ι} {x : α × ι}
    (h : choice p ps i = .ok x) : ∃ q ∈ p :: ps, q i = .ok x := by
  obtain ⟨q, hq, hx⟩ := exists_choice_eq p ps i
  exact ⟨q, hq, hx.symm.trans h⟩

theorem cut_of_ok {p : Parser ι ε α} {i : ι} {x : α × ι} (h : p i = .ok x) :
    cut p i = .ok x := by
  unfold cut
  rw [h]

theorem cut_of_cut {p : Parser ι ε α} {i : ι} {e : ε} (h : p i = .error (.cut e)) :
    cut p i = .error (.cut e) := by
  unfold cut
  rw [h]

theorem cut_of_not_backtracks {p : Parser ι ε α} {i : ι} (h : ¬ Backtracks p i) :
    cut p i = p i := by
  unfold cut
  cases hp : p i with
  | ok x => rfl
  | error e =>
    cases e with
    | backtrack e => exact absurd ⟨e, hp⟩ h
    | cut e => rfl

theorem cut_of_backtrack {p : Parser ι ε α} {i : ι} {e : ε} (h : p i = .error (.backtrack e)) :
    cut p i = .error (.cut e) := by
  unfold cut
  rw [h]

theorem not_backtracks_cut (p : Parser ι ε α) (i : ι) : ¬ Backtracks (cut p) i := by
  rintro ⟨e, he⟩
  by_cases hp : Backtracks p i
  · obtain ⟨e', he'⟩ := hp
    rw [cut_of_backtrack he'] at he
    cases he
  · exact hp ⟨e, (cut_of_not_backtracks hp).symm.trans he⟩

/-! ### Parsers that never cut -/

/-- Whenever the parser fails it leaves the caller a choice. -/
def NeverCuts (p : Parser ι ε α) : Prop := ∀ i e, p i ≠ .error (.cut e)

theorem neverCuts_pure (a : α) : NeverCuts (pure a : Parser ι ε α) := by
  intro i e h
  cases h

theorem NeverCuts.bind {p : Parser ι ε α} {f : α → Parser ι ε β} (hp : NeverCuts p)
    (hf : ∀ a, NeverCuts (f a)) : NeverCuts (p >>= f) := by
  intro i e h
  rw [bind_apply] at h
  cases hi : p i with
  | ok x =>
    rw [hi] at h
    exact hf x.1 x.2 e h
  | error e' =>
    rw [hi] at h
    cases h
    exact hp i e hi

theorem NeverCuts.map {p : Parser ι ε α} (f : α → β) (hp : NeverCuts p) : NeverCuts (f <$> p) :=
  fun i e h => hp i e (error_of_map h)

theorem NeverCuts.terminated {p : Parser ι ε α} {q : Parser ι ε β} (hp : NeverCuts p)
    (hq : NeverCuts q) : NeverCuts (terminated p q) :=
  hp.bind fun a => hq.bind fun _ => neverCuts_pure a

theorem NeverCuts.orElse {p q : Parser ι ε α} (hp : NeverCuts p) (hq : NeverCuts q) :
    NeverCuts (orElse p q) := by
  intro i e h
  by_cases hb : Backtracks p i
  · rw [orElse_of_backtracks hb] at h
    exact hq i e h
  · rw [orElse_of_not_backtracks hb] at h
    exact hp i e h

/-! ### Repetition -/

section
variable [Input ι τ]

theorem many_of_backtracks {p : Parser ι ε α} {i : ι} (h : Backtracks p i) :
    many p i = .ok ([], i) := by
  obtain ⟨e, he⟩ := h
  rw [many, he]

theorem many_of_cut {p : Parser ι ε α} {i : ι} {e : ε} (h : p i = .error (.cut e)) :
    many p i = .error (.cut e) := by
  rw [many, h]

/-- One more success that takes something off the input. -/
theorem many_cons {p : Parser ι ε α} {i r k : ι} {a : α} {as : List α} (h : p i = .ok (a, r))
    (hlt : Input.remaining r < Input.remaining i) (hm : many p r = .ok (as, k)) :
    many p i = .ok (a :: as, k) := by
  rw [many, h]
  simp only [hlt, if_true, hm]

theorem many_cons_of_error {p : Parser ι ε α} {i r : ι} {a : α} {e : Fail ε}
    (h : p i = .ok (a, r)) (hlt : Input.remaining r < Input.remaining i)
    (hm : many p r = .error e) : many p i = .error e := by
  rw [many, h]
  simp only [hlt, if_true, hm]

/-- A success that takes nothing off the input is the last one. -/
theorem many_of_standstill {p : Parser ι ε α} {i r : ι} {a : α} (h : p i = .ok (a, r))
    (hlt : ¬ Input.remaining r < Input.remaining i) : many p i = .ok ([a], r) := by
  rw [many, h]
  simp only [hlt, if_false]

/-- Repetition never leaves the caller a choice. -/
theorem not_backtracks_many (p : Parser ι ε α) (i : ι) : ¬ Backtracks (many p) i := by
  rintro ⟨e, he⟩
  induction i using many.induct p with
  | case1 i e' h =>
    rw [many_of_backtracks ⟨e', h⟩] at he
    cases he
  | case2 i e' h =>
    rw [many_of_cut h] at he
    cases he
  | case3 i a r h hlt as k hmany ih =>
    rw [many_cons h hlt hmany] at he
    cases he
  | case4 i a r h hlt e' hmany ih =>
    rw [many_cons_of_error h hlt hmany] at he
    cases he
    exact ih hmany
  | case5 i a r h hlt =>
    rw [many_of_standstill h hlt] at he
    cases he

end

/-! ### Single items and lexemes -/

section
variable [InputError (List τ) ε]

theorem satisfy_cons {p : τ → Bool} {t : τ} {ts : List τ} (h : p t = true) :
    (satisfy p : Parser (List τ) ε τ) (t :: ts) = .ok (t, ts) := by
  simp [satisfy, h]

/-- No first item with the property. -/
theorem backtracks_satisfy {p : τ → Bool} {ts : List τ} (h : ∀ t ∈ ts.head?, p t = false) :
    Backtracks (satisfy p : Parser (List τ) ε τ) ts := by
  cases ts with
  | nil => exact ⟨_, rfl⟩
  | cons t ts =>
    have ht : p t = false := h t rfl
    exact ⟨InputError.unexpected (t :: ts), by simp [satisfy, ht]⟩

end

section
variable [InputError (List Char) ε]

theorem lex_of_found {l : Lexeme α} {cs rest : List Char} {a : α} (h : l cs = .found a rest) :
    (lex l : Parser (List Char) ε α) cs = .ok (a, rest) := by
  unfold lex
  rw [h]

theorem backtracks_lex {l : Lexeme α} {cs stop : List Char} (h : l cs = .mismatch stop) :
    Backtracks (lex l : Parser (List Char) ε α) cs := by
  refine ⟨InputError.unexpected stop, ?_⟩
  unfold lex
  rw [h]

theorem NeverCuts.lex {l : Lexeme α} (h : ∀ cs stop, l cs ≠ .broken stop) :
    NeverCuts (lex l : Parser (List Char) ε α) := by
  intro cs e he
  unfold Parsing.lex at he
  split at he
  · cases he
  · cases he
  · cases he
  · next stop hl => exact h cs stop hl

end

theorem Lexeme.word_append (w rest : List Char) :
    Lexeme.word w (w ++ rest) = .found w rest := by
  have h : w.isPrefixOf (w ++ rest) = true := List.isPrefixOf_iff_prefix.2 (List.prefix_append ..)
  simp [Lexeme.word, h]

theorem Lexeme.word_eq_mismatch {w cs : List Char} (h : ¬ w <+: cs) :
    Lexeme.word w cs = .mismatch cs := by
  have h' : w.isPrefixOf cs = false := by
    rw [Bool.eq_false_iff]
    exact fun hp => h (List.isPrefixOf_iff_prefix.1 hp)
  simp [Lexeme.word, h']

theorem Lexeme.word_ne_broken (w cs stop : List Char) : Lexeme.word w cs ≠ .broken stop := by
  unfold Lexeme.word
  split
  · simp
  · simp

end HostLisp.Parsing
