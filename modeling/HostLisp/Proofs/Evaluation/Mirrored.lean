import HostLisp.Proofs.Evaluation.Mirror

/-!
# Evaluation side by side

Two computations mirror each other if, from mirrored machines, the first one loses a name or both
have the same outcome on machines that are mirrored again.  The evaluator mirrors itself, whatever is
missing on the first side; only names that are missing there can be lost.  Operations on values lose
nothing at all, which is why it does not matter that some of them catch errors.
-/

namespace HostLisp

/-- The environments are mirrored, and there is no other difference that could be observed. -/
structure Machine.Mirrors (missing : String → Prop) (k : Nat) (m m' : Machine) : Prop where
  env : m.env.Mirrors missing k m'.env
  world : m'.world = m.world
  depth : m'.depth = m.depth

namespace Run

instance : LawfulMonad Run := by
  refine LawfulMonad.mk' Run (fun x => funext fun m => ?_) (fun a f => rfl)
    (fun x f g => funext fun m => ?_)
  · rcases h : x m with ⟨e | a, m'⟩
    · exact bind_of_error h
    · exact bind_of_ok h
  · rw [bind_apply, bind_apply, bind_apply]
    rcases x m with ⟨e | a, m'⟩
    · rfl
    · rfl

variable {α β : Type} {R : Repertoire} {n k : Nat} {missing lost : String → Prop}

/-- The first computation fails because a name among the lost ones is unbound, or both end alike and
the second environment keeps what it found. -/
def Mirrors (R : Repertoire) (n : Nat) (missing lost : String → Prop) (k : Nat) (x y : Run α) :
    Prop :=
  ∀ m m' : Machine, m.Ready R n → m.Mirrors missing k m' →
    (∃ name, lost name ∧ (x m).1 = .error (.unbound name)) ∨
      ((y m').1 = (x m).1 ∧ (x m).2.Mirrors missing k (y m').2 ∧ m'.env.Keeps (y m').2.env)

variable {x y : Run α} {f g : α → Run β} {P : α → Prop}

/-- Outcomes that do not depend on the machine. -/
theorem Mirrors.ofExcept (outcome : Except Error α) :
    Mirrors R n missing lost k (ofExcept outcome) (ofExcept outcome) :=
  fun _ _ _ hmm => .inr ⟨rfl, hmm, .refl _⟩

theorem Mirrors.pure (a : α) :
    Mirrors R n missing lost k (Pure.pure a) (Pure.pure a) := .ofExcept (.ok a)

theorem Mirrors.fail (e : Error) :
    Mirrors R n missing lost k (fail e : Run α) (Run.fail e) := .ofExcept (.error e)

theorem Mirrors.mono {lost' : String → Prop} (h : Mirrors R n missing lost k x y)
    (hlost : ∀ name, lost name → lost' name) : Mirrors R n missing lost' k x y := by
  intro m m' hm hmm
  obtain ⟨name, hname, he⟩ | h := h m m' hm hmm
  · exact .inl ⟨name, hlost name hname, he⟩
  · exact .inr h

theorem Mirrors.bind (hx : Mirrors R n missing lost k x y) (hb : Balanced R n x P)
    (hf : ∀ a, P a → Mirrors R n missing lost k (f a) (g a)) :
    Mirrors R n missing lost k (x >>= f) (y >>= g) := by
  intro m m' hm hmm
  have hx := hx m m' hm hmm
  obtain ⟨hready, -, hP, -⟩ := hb m hm
  rw [bind_apply, bind_apply]
  rcases hxm : x m with ⟨e | a, m₁⟩ <;> rcases hym : y m' with ⟨e' | a', m₁'⟩ <;>
    rw [hxm] at hx hready hP <;> rw [hym] at hx
  · obtain ⟨name, hname, he⟩ | ⟨he, hmm, hkeeps⟩ := hx
    · exact .inl ⟨name, hname, by cases he; rfl⟩
    · cases he
      exact .inr ⟨rfl, hmm, hkeeps⟩
  · obtain ⟨name, hname, he⟩ | ⟨he, -, -⟩ := hx
    · exact .inl ⟨name, hname, by cases he; rfl⟩
    · cases he
  · obtain ⟨name, hname, he⟩ | ⟨he, -, -⟩ := hx
    · cases he
    · cases he
  · obtain ⟨name, hname, he⟩ | ⟨he, hmm, hkeeps⟩ := hx
    · cases he
    · cases he
      obtain h | ⟨heq, hmm', hkeeps'⟩ := hf a (hP a rfl) m₁ m₁' hready hmm
      · exact .inl h
      · exact .inr ⟨heq, hmm', hkeeps.trans hkeeps'⟩

theorem Mirrors.map (h : α → β) (hx : Mirrors R n missing lost k x y) (hb : Balanced R n x P) :
    Mirrors R n missing lost k (h <$> x) (h <$> y) :=
  Mirrors.bind (f := fun a => Pure.pure (h a)) (g := fun a => Pure.pure (h a)) hx hb
    fun a _ => .pure (h a)

/-- Errors may be caught where no name is lost. -/
theorem Mirrors.attempt (hx : Mirrors R n missing (fun _ => False) k x y) :
    Mirrors R n missing lost k (attempt x) (attempt y) := by
  intro m m' hm hmm
  obtain ⟨_, hname, -⟩ | ⟨heq, hmm', hkeeps⟩ := hx m m' hm hmm
  · exact hname.elim
  · exact .inr ⟨congrArg Except.ok heq, hmm', hkeeps⟩

theorem Mirrors.through (p : Passage) (hx : Mirrors R n missing lost k x y) :
    Mirrors R n missing lost k (through p x) (through p y) := by
  intro m m' hm hmm
  unfold Run.through
  obtain ⟨name, hname, he⟩ | ⟨heq, hmm', hkeeps⟩ := hx m m' hm hmm
  · rcases hxm : x m with ⟨_, m₁⟩
    rw [hxm] at he
    cases he
    exact .inl ⟨name, hname, rfl⟩
  · rcases hxm : x m with ⟨e | a, m₁⟩ <;> rcases hym : y m' with ⟨_, m₁'⟩ <;>
      rw [hxm, hym] at heq hmm' <;> rw [hym] at hkeeps <;> cases heq
    · exact .inr ⟨rfl, hmm', hkeeps⟩
    · exact .inr ⟨rfl, hmm', hkeeps⟩

theorem Mirrors.nested (hx : Mirrors R n missing lost k x y) :
    Mirrors R (n + 1) missing lost k (nested x) (nested y) := by
  intro m m' hm hmm
  have hready : Machine.Ready R n
      { m with depth := m.depth + 1, deepest := max m.deepest (m.depth + 1) } := hm.inside
  have hmm₁ : Machine.Mirrors missing k
      { m with depth := m.depth + 1, deepest := max m.deepest (m.depth + 1) }
      { m' with depth := m'.depth + 1, deepest := max m'.deepest (m'.depth + 1) } :=
    ⟨hmm.env, hmm.world, congrArg (· + 1) hmm.depth⟩
  obtain h | ⟨heq, hmm', hkeeps⟩ := hx _ _ hready hmm₁
  · exact .inl h
  · exact .inr ⟨heq, ⟨hmm'.env, hmm'.world, congrArg (· - 1) hmm'.depth⟩, hkeeps⟩

theorem Mirrors.inFrame (hx : Mirrors R n missing lost k x y) (hb : Balanced R n x P) :
    Mirrors R n missing lost k (inFrame x) (inFrame y) := by
  intro m m' hm hmm
  have hready : Machine.Ready R n { m with env := m.env.pushFrame } :=
    ⟨hm.depth, hm.deepest, hm.within.pushFrame⟩
  obtain ⟨-, hkeeps, -⟩ := hb _ hready
  obtain h | ⟨heq, hmm', hkeeps'⟩ := hx _ { m' with env := m'.env.pushFrame } hready
    ⟨hmm.env.pushFrame, hmm.world, hmm.depth⟩
  · exact .inl h
  · exact .inr ⟨heq, ⟨hmm.env.popFrame hkeeps hkeeps' hmm'.env, hmm'.world, hmm'.depth⟩,
      Environment.keeps_popFrame hkeeps'⟩

/-- In one environment for both sides nothing is missing, and nothing is lost. -/
theorem Mirrors.inEnvironment {env : Environment} (henv : env.Within R)
    (hx : Mirrors R n (fun _ => False) (fun _ => False) 0 x y) :
    Mirrors R n missing lost k (inEnvironment env x) (inEnvironment env y) := by
  intro m m' hm hmm
  have hready : Machine.Ready R n { m with env } := ⟨hm.depth, hm.deepest, henv⟩
  obtain ⟨_, hname, -⟩ | ⟨heq, hmm', -⟩ := hx _ { m' with env } hready
    ⟨.refl env, hmm.world, hmm.depth⟩
  · exact hname.elim
  · exact .inr ⟨heq, ⟨hmm.env, hmm'.world, hmm'.depth⟩, .refl _⟩

/-- A lost name may be anything on the second side. -/
theorem Mirrors.unbound {name : String} (h : lost name) (y : Run α) :
    Mirrors R n missing lost k (Run.fail (.unbound name)) y :=
  fun _ _ _ _ => .inl ⟨name, h, rfl⟩

/-- Looking a name up finds the same on both sides, or nothing on the first one. -/
theorem Mirrors.lookup {name : String} {f g : Option Binding → Run β}
    (hf : ∀ b, (∀ b' ∈ b, Binding.WithinAt R name b') →
      Mirrors R n missing lost k (f b) (g (b.map (.shift k))))
    (hmissing : missing name → ∀ b, (∀ t, b ≠ some (.value (.deferred t))) →
      Mirrors R n missing lost k (f none) (g b)) :
    Mirrors R n missing lost k (lookup name >>= f) (lookup name >>= g) := by
  intro m m' hm hmm
  show _ ∨ (g (m'.env.lookup name) m').1 = (f (m.env.lookup name) m).1 ∧ _
  obtain heq | ⟨hnone, hname, htask⟩ := hmm.env.lookup name
  · have h := hf (m.env.lookup name) (fun _ hb => hm.within.lookup hb) m m' hm hmm
    rw [← heq] at h
    exact h
  · have h := hmissing hname (m'.env.lookup name) htask m m' hm hmm
    rw [← hnone] at h
    exact h

/-- Whatever is read off the environments is read off mirrored ones. -/
theorem Mirrors.environment {f g : Environment → Run β}
    (hf : ∀ env outer, env.Within R → env.Mirrors missing k outer →
      Mirrors R n missing lost k (f env) (g outer)) :
    Mirrors R n missing lost k (environment >>= f) (environment >>= g) :=
  fun m m' hm hmm => hf m.env m'.env hm.within hmm.env m m' hm hmm

theorem Mirrors.freshIdentity :
    Mirrors R n missing lost k freshIdentity freshIdentity := by
  intro m m' hm hmm
  refine .inr ⟨?_, ⟨hmm.env, ?_, hmm.depth⟩, .refl _⟩
  · show Except.ok m'.world.nextIdentity = Except.ok m.world.nextIdentity
    rw [hmm.world]
  · show { m'.world with nextIdentity := m'.world.nextIdentity + 1 } = _
    rw [hmm.world]
    rfl

end Run

end HostLisp
