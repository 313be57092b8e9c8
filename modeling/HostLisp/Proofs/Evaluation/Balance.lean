import HostLisp.Proofs.Evaluation.Keeping

/-!
# Balanced computations

A computation is balanced on a level if, from any machine with as many evaluations under way as that
level means, it ends with as many under way, never with too many in between, and in an environment
that keeps what it found, whether it fails or not.  The combinators of computations preserve
balance, so it is enough to look at what each part of the evaluator is made of.
-/

namespace HostLisp

/-- `n` more evaluations may nest, and none has nested too deep so far. -/
structure Machine.Ready (R : Repertoire) (n : Nat) (m : Machine) : Prop where
  depth : m.depth + n = maxEvalDepth
  deepest : m.deepest ≤ maxEvalDepth
  within : m.env.Within R

/-- With one evaluation more under way, one less may nest. -/
theorem Machine.Ready.inside {R : Repertoire} {n : Nat} {m : Machine} (h : m.Ready R (n + 1)) :
    Machine.Ready R n
      { m with depth := m.depth + 1, deepest := max m.deepest (m.depth + 1) } := by
  obtain ⟨hdepth, hdeepest, hwithin⟩ := h
  refine ⟨?_, Nat.max_le.2 ⟨hdeepest, by omega⟩, hwithin⟩
  show m.depth + 1 + n = maxEvalDepth
  omega

namespace Run

variable {α β : Type} {R : Repertoire} {n : Nat}

/-- However the computation ends, the machine is ready for as many evaluations as before, in an
environment that keeps what it found; an answer has the property `Q`, and an error `E`. -/
def Balanced (R : Repertoire) (n : Nat) (x : Run α) (Q : α → Prop)
    (E : Error → Prop := fun _ => True) : Prop :=
  ∀ m : Machine, m.Ready R n →
    (x m).2.Ready R n ∧ m.env.Keeps (x m).2.env ∧ (∀ a, (x m).1 = .ok a → Q a) ∧
      ∀ e, (x m).1 = .error e → E e

variable {x : Run α} {f : α → Run β} {P Q : α → Prop} {S : β → Prop} {E : Error → Prop}

theorem Balanced.mono (hx : Balanced R n x P E) (h : ∀ a, P a → Q a) : Balanced R n x Q E := by
  intro m hm
  obtain ⟨hready, hkeeps, hP, hE⟩ := hx m hm
  exact ⟨hready, hkeeps, fun a ha => h a (hP a ha), hE⟩

theorem Balanced.pure {a : α} (h : Q a) : Balanced R n (pure a) Q E := by
  refine fun m hm => ⟨hm, .refl _, fun b hb => ?_, nofun⟩
  cases hb
  exact h

theorem Balanced.fail {e : Error} (h : E e) : Balanced R n (fail e : Run α) Q E := by
  refine fun m hm => ⟨hm, .refl _, nofun, fun e' he => ?_⟩
  cases he
  exact h

theorem Balanced.ofExcept {outcome : Except Error α} (h : ∀ a, outcome = .ok a → Q a)
    (he : ∀ e, outcome = .error e → E e) : Balanced R n (ofExcept outcome) Q E :=
  fun _ hm => ⟨hm, .refl _, h, he⟩

/-- Any outcome will do. -/
theorem Balanced.outcome (outcome : Except Error α) :
    Balanced R n (Run.ofExcept outcome) fun _ => True :=
  .ofExcept (fun _ _ => trivial) fun _ _ => trivial

theorem Balanced.bind (hx : Balanced R n x P E) (hf : ∀ a, P a → Balanced R n (f a) S E) :
    Balanced R n (x >>= f) S E := by
  intro m hm
  obtain ⟨hready, hkeeps, hP, hE⟩ := hx m hm
  rw [bind_apply]
  rcases hxm : x m with ⟨e | a, m'⟩ <;> rw [hxm] at hready hkeeps hP hE
  · refine ⟨hready, hkeeps, nofun, fun e' he => ?_⟩
    cases he
    exact hE e rfl
  · obtain ⟨hready', hkeeps', hS, hE'⟩ := hf a (hP a rfl) m' hready
    exact ⟨hready', hkeeps.trans hkeeps', hS, hE'⟩

/-- Errors become part of the answer. -/
theorem Balanced.attempt {E' : Error → Prop} (hx : Balanced R n x P E) :
    Balanced R n (attempt x)
      (fun outcome => (∀ a, outcome = .ok a → P a) ∧ ∀ e, outcome = .error e → E e) E' := by
  intro m hm
  obtain ⟨hready, hkeeps, hP, hE⟩ := hx m hm
  refine ⟨hready, hkeeps, fun outcome houtcome => ?_, nofun⟩
  cases houtcome
  exact ⟨hP, hE⟩

theorem Balanced.through {p : Passage} (hx : Balanced R n x P E) (hE : ∀ e, E e → E (e.through p)) :
    Balanced R n (through p x) P E := by
  intro m hm
  obtain ⟨hready, hkeeps, hP, hxE⟩ := hx m hm
  unfold Run.through
  rcases hxm : x m with ⟨e | a, m'⟩ <;> rw [hxm] at hready hkeeps hP hxE
  · refine ⟨hready, hkeeps, nofun, fun e' he => ?_⟩
    cases he
    exact hE e (hxE e rfl)
  · exact ⟨hready, hkeeps, hP, nofun⟩

/-- One evaluation more is under way inside, so it may nest one level less. -/
theorem Balanced.nested (hx : Balanced R n x P E) : Balanced R (n + 1) (nested x) P E := by
  intro m hm
  obtain ⟨⟨hdepth', hdeepest', hwithin'⟩, hkeeps, hP, hE⟩ := hx _ hm.inside
  refine ⟨⟨?_, hdeepest', hwithin'⟩, hkeeps, hP, hE⟩
  show (x _).2.depth - 1 + (n + 1) = maxEvalDepth
  have := hm.depth
  omega

theorem Balanced.environment : Balanced R n environment (Environment.Within R) E := by
  refine fun m hm => ⟨hm, .refl _, fun env henv => ?_, nofun⟩
  cases henv
  exact hm.within

theorem Balanced.lookup (name : String) :
    Balanced R n (lookup name) (fun b => ∀ b' ∈ b, Binding.WithinAt R name b') E := by
  refine fun m hm => ⟨hm, .refl _, fun b hb b' hb' => ?_, nofun⟩
  cases hb
  exact hm.within.lookup hb'

theorem Balanced.update_map {γ : Type} {change : Environment → Except Error γ}
    {k : γ → α × Environment}
    (hk : ∀ env c, env.Within R → change env = .ok c →
      (k c).2.Within R ∧ env.Keeps (k c).2 ∧ Q (k c).1)
    (hE : ∀ env e, change env = .error e → E e) :
    Balanced R n (update fun env => (change env).map k) Q E := by
  intro m hm
  cases h : change m.env with
  | ok c =>
    obtain ⟨hwithin, hkeeps, hQ⟩ := hk m.env c hm.within h
    rw [update_map_of_ok h]
    refine ⟨⟨hm.depth, hm.deepest, hwithin⟩, hkeeps, ?_, nofun⟩
    rintro a ⟨⟩
    exact hQ
  | error e =>
    rw [update_map_of_error h]
    refine ⟨hm, .refl _, nofun, ?_⟩
    rintro e' ⟨⟩
    exact hE m.env e h

/-- A scope of its own is left in any case, and nothing but contents of cells has changed. -/
theorem Balanced.inFrame (hx : Balanced R n x P E) : Balanced R n (inFrame x) P E := by
  intro m hm
  have hready : Machine.Ready R n { m with env := m.env.pushFrame } :=
    ⟨hm.depth, hm.deepest, hm.within.pushFrame⟩
  obtain ⟨hready', hkeeps, hP, hE⟩ := hx _ hready
  exact ⟨⟨hready'.depth, hready'.deepest, hready'.within.popFrame⟩,
    Environment.keeps_popFrame hkeeps, hP, hE⟩

/-- Another environment is given up afterwards. -/
theorem Balanced.inEnvironment {env : Environment} (henv : env.Within R)
    (hx : Balanced R n x P E) : Balanced R n (inEnvironment env x) P E := by
  intro m hm
  have hready : Machine.Ready R n { m with env } := ⟨hm.depth, hm.deepest, henv⟩
  obtain ⟨hready', hkeeps, hP, hE⟩ := hx _ hready
  exact ⟨⟨hready'.depth, hready'.deepest, hm.within⟩, .refl _, hP, hE⟩

theorem Balanced.freshIdentity : Balanced R n freshIdentity (fun _ => True) E :=
  fun _ hm => ⟨⟨hm.depth, hm.deepest, hm.within⟩, .refl _, fun _ _ => trivial, nofun⟩

end Run

end HostLisp
