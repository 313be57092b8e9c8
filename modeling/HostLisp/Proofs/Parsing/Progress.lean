import HostLisp.Proofs.Parsing.Outcome

/-!
# What is left over

A parser that reads from the front leaves an end of its input over, the same input or a later place
in it.  This is passed on by every combinator, and so is that something has been taken.
-/

namespace HostLisp.Parsing

variable {τ ε α β : Type}

/-- Whatever is read, an end of the input is left over. -/
def LeavesEnd (p : Parser (List τ) ε α) : Prop := ∀ i a r, p i = .ok (a, r) → r <:+ i

/-- Whatever is read, something is taken off the input. -/
def TakesSome (p : Parser (List τ) ε α) : Prop :=
  ∀ i a r, p i = .ok (a, r) → r <:+ i ∧ r.length < i.length

/-- What something is taken off is not empty. -/
theorem ne_nil_of_takes {i r : List τ} (h : r <:+ i ∧ r.length < i.length) : i ≠ [] :=
  List.ne_nil_of_length_pos (Nat.zero_lt_of_lt h.2)

/-! ### One after the other -/

section
variable {p : Parser (List τ) ε α} {f : α → Parser (List τ) ε β}

theorem exists_of_bind {i r : List τ} {b : β} (h : (p >>= f) i = .ok (b, r)) :
    ∃ a k, p i = .ok (a, k) ∧ f a k = .ok (b, r) := by
  rw [bind_apply] at h
  cases hp : p i with
  | error e => simp [hp] at h
  | ok x => exact ⟨x.1, x.2, rfl, by simpa [hp] using h⟩

theorem leavesEnd_pure (a : α) : LeavesEnd (pure a : Parser (List τ) ε α) := by
  intro i b r h
  cases h
  exact List.suffix_refl i

theorem LeavesEnd.bind (hp : LeavesEnd p) (hf : ∀ a, LeavesEnd (f a)) : LeavesEnd (p >>= f) := by
  intro i b r h
  obtain ⟨a, k, ha, hb⟩ := exists_of_bind h
  exact (hf a k b r hb).trans (hp i a k ha)

/-- One of two parsers takes something, and so do both together. -/
theorem TakesSome.bind (hp : TakesSome p) (hf : ∀ a, LeavesEnd (f a)) : TakesSome (p >>= f) := by
  intro i b r h
  obtain ⟨a, k, ha, hb⟩ := exists_of_bind h
  have hk := hp i a k ha
  have hr := hf a k b r hb
  exact ⟨hr.trans hk.1, Nat.lt_of_le_of_lt hr.length_le hk.2⟩

theorem TakesSome.map {g : α → β} (hp : TakesSome p) : TakesSome (g <$> p) := by
  intro i b r h
  obtain ⟨a, ha, -⟩ := exists_of_map h
  exact hp i a r ha

theorem TakesSome.terminated {q : Parser (List τ) ε β} (hp : TakesSome p) (hq : LeavesEnd q) :
    TakesSome (terminated p q) :=
  hp.bind fun _ => hq.bind fun _ => leavesEnd_pure _

end

/-! ### Alternatives -/

section
variable {p q : Parser (List τ) ε α}

theorem exists_of_orElse {i r : List τ} {a : α} (h : orElse p q i = .ok (a, r)) :
    p i = .ok (a, r) ∨ Backtracks p i ∧ q i = .ok (a, r) := by
  by_cases hp : Backtracks p i
  · rw [orElse_of_backtracks hp] at h
    exact .inr ⟨hp, h⟩
  · rw [orElse_of_not_backtracks hp] at h
    exact .inl h

theorem TakesSome.orElse (hp : TakesSome p) (hq : TakesSome q) : TakesSome (orElse p q) := by
  intro i a r h
  obtain h | ⟨-, h⟩ := exists_of_orElse h
  · exact hp i a r h
  · exact hq i a r h

theorem TakesSome.choice {ps : List (Parser (List τ) ε α)} (hp : TakesSome p)
    (hps : ∀ q ∈ ps, TakesSome q) : TakesSome (choice p ps) := by
  intro i a r h
  obtain ⟨q, hq, h⟩ := exists_of_choice h
  cases hq with
  | head => exact hp i a r h
  | tail _ hq => exact hps q hq i a r h

end

/-! ### Lexemes -/

/-- Whatever the lexeme finds, it takes something off the text. -/
def Lexeme.TakesSome (l : Lexeme α) : Prop :=
  ∀ cs a r, l cs = .found a r → r <:+ cs ∧ r.length < cs.length

theorem Lexeme.TakesSome.lex [InputError (List Char) ε] {l : Lexeme α} (h : l.TakesSome) :
    Parsing.TakesSome (lex l : Parser (List Char) ε α) := by
  intro cs a r hl
  unfold Parsing.lex at hl
  split at hl
  · next a' rest heq =>
    cases hl
    exact h cs a r heq
  all_goals cases hl

theorem Lexeme.takesSome_word {w : List Char} (hw : w ≠ []) : (Lexeme.word w).TakesSome := by
  intro cs a r h
  unfold Lexeme.word at h
  split at h
  · next hp =>
    cases h
    have hle := (List.isPrefixOf_iff_prefix.1 hp).length_le
    have hpos := List.length_pos_iff.2 hw
    refine ⟨List.drop_suffix .., ?_⟩
    rw [List.length_drop]
    omega
  · cases h

end HostLisp.Parsing
