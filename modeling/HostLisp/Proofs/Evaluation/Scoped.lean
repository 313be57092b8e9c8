import HostLisp.Proofs.Evaluation.Scope

/-!
# Computations in scope

A computation takes one scope to another if, from an environment that holds the names of the first
one, it fails with the error of an unbound name only for a late one, and behind a success the
environment holds the names of the second.  What is in scope stays so, whatever else happens.
-/

namespace HostLisp

/-- The name is a late one, if the error is that of an unbound name. -/
def Error.IsLate (late : List String) (e : Error) : Prop :=
  ∀ name, e = .unbound name → name ∈ late

theorem Error.isLate_of_not_isUnbound {late : List String} {e : Error} (h : ¬ e.IsUnbound) :
    e.IsLate late := by
  rintro name rfl
  exact absurd trivial h

theorem Error.IsLate.through {late : List String} {e : Error} (h : e.IsLate late) (p : Passage) :
    (e.through p).IsLate late := by
  intro name he
  cases e with
  | unbound other => exact h name he
  | _ => cases he

theorem Error.isLate_unbound {late : List String} {name : String} (h : name ∈ late) :
    (Error.unbound name).IsLate late := by
  rintro _ ⟨⟩
  exact h

namespace Run

variable {α β : Type} {late scope scope₁ scope₂ : List String} {n : Nat}

/-- From where the first scope holds the computation is balanced, fails with the error of a name only
for a late one, and behind an answer the second scope holds. -/
def InScope (late : List String) (n : Nat) (scope : List String) (x : Run α) (Q : α → Prop)
    (scope' : List String) : Prop :=
  ∀ m : Machine, m.Ready (.scoped late) n → m.env.HoldsAll late scope →
    (x m).2.Ready (.scoped late) n ∧ m.env.Keeps (x m).2.env ∧
      (∀ a, (x m).1 = .ok a → Q a ∧ (x m).2.env.HoldsAll late scope') ∧
      ∀ e, (x m).1 = .error e → e.IsLate late

variable {x : Run α} {f : α → Run β} {P Q : α → Prop} {S : β → Prop}

/-- Whatever is balanced leaves in scope what is. -/
theorem InScope.of_balanced (h : Balanced (.scoped late) n x Q (Error.IsLate late)) :
    InScope late n scope x Q scope := by
  intro m hm hscope
  obtain ⟨hready, hkeeps, hQ, hE⟩ := h m hm
  exact ⟨hready, hkeeps, fun a ha => ⟨hQ a ha, hkeeps.holdsAll hscope⟩, hE⟩

theorem InScope.pure {a : α} (h : Q a) : InScope late n scope (pure a) Q scope :=
  .of_balanced (.pure h)

theorem InScope.fail {e : Error} (h : e.IsLate late) :
    InScope late n scope (Run.fail e : Run α) Q scope₁ := by
  refine fun m hm _ => ⟨hm, .refl _, nofun, fun e' he => ?_⟩
  cases he
  exact h

/-- Any failure will do that has nothing to do with names. -/
theorem InScope.error {e : Error} (h : ¬ e.IsUnbound) :
    InScope late n scope (Run.fail e : Run α) Q scope₁ :=
  .fail (Error.isLate_of_not_isUnbound h)

theorem InScope.outcome {o : Except Error α} (h : ∀ e, o = .error e → ¬ e.IsUnbound) :
    InScope late n scope (ofExcept o) (fun a => o = .ok a) scope :=
  .of_balanced (.ofExcept (fun _ => id) fun e he => Error.isLate_of_not_isUnbound (h e he))

/-- Less may be asked to be in scope behind, and what was in scope in front is there anyway. -/
theorem InScope.mono (h : InScope late n scope x Q scope₁)
    (hscope : ∀ name ∈ scope₂, name ∈ scope ∨ name ∈ scope₁) :
    InScope late n scope x Q scope₂ := by
  intro m hm hholds
  obtain ⟨hready, hkeeps, hQ, hE⟩ := h m hm hholds
  refine ⟨hready, hkeeps, fun a ha => ⟨(hQ a ha).1, fun name hname => ?_⟩, hE⟩
  obtain hname | hname := hscope name hname
  · exact hkeeps.holdsAll hholds name hname
  · exact (hQ a ha).2 name hname

theorem InScope.stay (h : InScope late n scope x Q scope₁) : InScope late n scope x Q scope :=
  h.mono fun _ => .inl

theorem InScope.bind (hx : InScope late n scope x P scope₁)
    (hf : ∀ a, P a → InScope late n scope₁ (f a) S scope₂) :
    InScope late n scope (x >>= f) S scope₂ := by
  intro m hm hscope
  obtain ⟨hready, hkeeps, hP, hE⟩ := hx m hm hscope
  rw [bind_apply]
  rcases hxm : x m with ⟨e | a, m'⟩ <;> rw [hxm] at hready hkeeps hP hE
  · refine ⟨hready, hkeeps, nofun, fun e' he => ?_⟩
    cases he
    exact hE e rfl
  · obtain ⟨hPa, hscope'⟩ := hP a rfl
    obtain ⟨hready', hkeeps', hS, hE'⟩ := hf a hPa m' hready hscope'
    exact ⟨hready', hkeeps.trans hkeeps', hS, hE'⟩

theorem InScope.through {p : Passage} (hx : InScope late n scope x P scope₁) :
    InScope late n scope (through p x) P scope₁ := by
  intro m hm hscope
  obtain ⟨hready, hkeeps, hP, hE⟩ := hx m hm hscope
  unfold Run.through
  rcases hxm : x m with ⟨e | a, m'⟩ <;> rw [hxm] at hready hkeeps hP hE
  · refine ⟨hready, hkeeps, nofun, fun e' he => ?_⟩
    cases he
    exact (hE e rfl).through p
  · exact ⟨hready, hkeeps, hP, nofun⟩

theorem InScope.nested (hx : InScope late n scope x P scope₁) :
    InScope late (n + 1) scope (nested x) P scope₁ := by
  intro m hm hscope
  obtain ⟨⟨hdepth', hdeepest', hwithin'⟩, hkeeps, hP, hE⟩ := hx _ hm.inside hscope
  refine ⟨⟨?_, hdeepest', hwithin'⟩, hkeeps, hP, hE⟩
  show (x _).2.depth - 1 + (n + 1) = maxEvalDepth
  have := hm.depth
  omega

theorem InScope.update_map {γ : Type} {change : Environment → Except Error γ}
    {k : γ → α × Environment}
    (hk : ∀ env c, env.Within (.scoped late) → change env = .ok c →
      (k c).2.Within (.scoped late) ∧ env.Keeps (k c).2 ∧ Q (k c).1 ∧
        ∀ name ∈ scope₁, name ∈ scope ∨ (k c).2.Holds name)
    (hE : ∀ env e, change env = .error e → ¬ e.IsUnbound) :
    InScope late n scope (update fun env => (change env).map k) Q scope₁ := by
  intro m hm hscope
  cases h : change m.env with
  | ok c =>
    obtain ⟨hwithin, hkeeps, hQ, hnames⟩ := hk m.env c hm.within h
    rw [update_map_of_ok h]
    refine ⟨⟨hm.depth, hm.deepest, hwithin⟩, hkeeps, ?_, nofun⟩
    rintro a ⟨⟩
    exact ⟨hQ, fun name hname => (hnames name hname).elim (hkeeps.holdsAll hscope name) .inr⟩
  | error e =>
    rw [update_map_of_error h]
    refine ⟨hm, .refl _, nofun, ?_⟩
    rintro e' ⟨⟩
    exact Error.isLate_of_not_isUnbound (hE m.env e h)

/-- What is declared in a scope of its own is gone behind it. -/
theorem InScope.inFrame (hx : InScope late n scope x P scope₁) :
    InScope late n scope (inFrame x) P scope := by
  intro m hm hscope
  have hready : Machine.Ready (.scoped late) n { m with env := m.env.pushFrame } :=
    ⟨hm.depth, hm.deepest, hm.within.pushFrame⟩
  obtain ⟨hready', hkeeps, hP, hE⟩ :=
    hx _ hready fun name hname => (hscope name hname).imp_right .pushFrame
  have hkeeps' := Environment.keeps_popFrame hkeeps
  exact ⟨⟨hready'.depth, hready'.deepest, hready'.within.popFrame⟩, hkeeps',
    fun a ha => ⟨(hP a ha).1, hkeeps'.holdsAll hscope⟩, hE⟩

/-- In an environment that holds a scope, nothing is asked of the one outside. -/
theorem InScope.inEnvironment {env : Environment} (henv : env.Within (.scoped late))
    (hscope : env.HoldsAll late scope) (hx : InScope late n scope x P scope₁) :
    Balanced (.scoped late) n (inEnvironment env x) P (Error.IsLate late) := by
  intro m hm
  have hready : Machine.Ready (.scoped late) n { m with env } := ⟨hm.depth, hm.deepest, henv⟩
  obtain ⟨hready', -, hP, hE⟩ := hx _ hready hscope
  exact ⟨⟨hready'.depth, hready'.deepest, hm.within⟩, .refl _, fun a ha => (hP a ha).1, hE⟩

theorem InScope.environment {f : Environment → Run β}
    (hf : ∀ env, env.Within (.scoped late) → env.HoldsAll late scope →
      InScope late n scope (f env) S scope₁) :
    InScope late n scope (environment >>= f) S scope₁ :=
  fun m hm hscope => hf m.env hm.within hscope m hm hscope

/-- A name in scope stands for something, or is a late one. -/
theorem InScope.lookup {name : String} {f : Option Binding → Run β} (hname : name ∈ late ++ scope)
    (hf : ∀ b, Binding.FitsAt (.scoped late) name b → InScope late n scope (f (some b)) S scope₁)
    (hnone : name ∈ late → InScope late n scope (f none) S scope₁) :
    InScope late n scope (lookup name >>= f) S scope₁ := by
  intro m hm hscope
  have hrun : (Run.lookup name >>= f) m = f (m.env.lookup name) m := rfl
  rw [hrun]
  cases hb : m.env.lookup name with
  | some b => exact hf b (hm.within.fitsAt_lookup hb) m hm hscope
  | none =>
    obtain hlate | hholds := hscope.mem hname
    · exact hnone hlate m hm hscope
    · obtain ⟨b, hb'⟩ := hholds.lookup
      rw [hb] at hb'
      cases hb'

end Run

end HostLisp
