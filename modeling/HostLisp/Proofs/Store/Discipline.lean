import HostLisp.Proofs.Evaluation.Activation

/-!
# Following the environment

A discipline says which environments are in order and what may become of one that is.  All that the
evaluator does to an environment is to declare and to assign variables, in scopes that it enters and
leaves; so if these keep to the discipline, every computation does.

`Run.Tracks D x y` says so of `x`, and that `y`, which need only do the same as `x` where the
environment is in order, can then not be told from it.  With an evaluator for `y` that does
something else wherever the environment is not in order, that means that evaluation never comes to
such a place, in no activation either.
-/

namespace HostLisp

/-- Which environments are in order, and what may become of them. -/
structure Discipline where
  ok : Environment → Prop
  next : Environment → Environment → Prop
  refl : ∀ env, next env env
  trans : ∀ {env env' env''}, next env env' → next env' env'' → next env env''
  stays : ∀ {env env'}, ok env → next env env' → ok env'
  defineVar : ∀ {env env' name ty v handle},
    env.defineVar name ty v = .ok (handle, env') → next env env'
  setVar : ∀ {env env' handle v}, env.setVar handle v = .ok env' → next env env'
  pushFrame : ∀ {env}, ok env → ok env.pushFrame
  popFrame : ∀ {env env'}, next env.pushFrame env' → next env env'.popFrame
  activation : ∀ captured, ok (Environment.ofCaptured captured).pushFrame

/-! ### Activations -/

namespace Signature

variable {D : Discipline} {env env' : Environment}

theorem next_allocate {cells : List ((String × Ty) × Value)} {bound : List (String × Handle)}
    (h : allocate env cells = .ok (bound, env')) : D.next env env' := by
  induction cells generalizing env bound with
  | nil =>
    cases h
    exact D.refl _
  | cons c cells ih =>
    obtain ⟨handle, env₁, bound', hd, ha⟩ := exists_of_allocate_cons h
    exact D.trans (D.defineVar hd) (ih ha)

theorem next_bind {s : Signature} {actuals : List Value} {bound : List (String × Handle)}
    (h : s.bind env actuals = .ok (bound, env')) : D.next env env' := by
  obtain ⟨values, -, ha⟩ := exists_of_bind h
  exact next_allocate ha

end Signature

/-! ### Computations -/

namespace Run

variable {α β : Type} {D : Discipline} {P : α → Prop} {Q : β → Prop} {x y : Run α}
  {f g : α → Run β}

/-- Where the environment is in order, `x` keeps to the discipline and `y` is the same as `x`. -/
def Tracks (D : Discipline) (x y : Run α) : Prop :=
  ∀ m : Machine, D.ok m.env → y m = x m ∧ D.next m.env (x m).2.env

/-- Besides, the answers of `x` have a property. -/
structure TracksTo (D : Discipline) (P : α → Prop) (x y : Run α) : Prop where
  tracks : Tracks D x y
  answer : ∀ m : Machine, D.ok m.env → ∀ a, (x m).1 = .ok a → P a

/-- What does not depend on the environment and leaves it alone. -/
theorem Tracks.of_env (h : ∀ m : Machine, (x m).2.env = m.env) : Tracks D x x := by
  intro m _
  refine ⟨rfl, ?_⟩
  rw [h m]
  exact D.refl m.env

theorem Tracks.pure (a : α) : Tracks D (Pure.pure a) (Pure.pure a) := .of_env fun _ => rfl

theorem Tracks.fail (e : Error) : Tracks D (fail e : Run α) (fail e) := .of_env fun _ => rfl

theorem TracksTo.pure {a : α} (h : P a) : TracksTo D P (Pure.pure a) (Pure.pure a) := by
  refine ⟨.pure a, fun m _ => ?_⟩
  rintro b ⟨⟩
  exact h

theorem TracksTo.fail (e : Error) : TracksTo D P (Run.fail e) (Run.fail e) := by
  refine ⟨.fail e, fun m _ a h => ?_⟩
  cases h

theorem Tracks.environment : Tracks D environment environment := .of_env fun _ => rfl

theorem Tracks.lookup (name : String) : Tracks D (lookup name) (lookup name) := .of_env fun _ => rfl

theorem Tracks.freshIdentity : Tracks D freshIdentity freshIdentity := .of_env fun _ => rfl

theorem TracksTo.bind (hx : TracksTo D P x y) (hf : ∀ a, P a → TracksTo D Q (f a) (g a)) :
    TracksTo D Q (x >>= f) (y >>= g) := by
  have hrun : ∀ m : Machine, D.ok m.env → ((y >>= g) m = (x >>= f) m ∧
      D.next m.env ((x >>= f) m).2.env) ∧ ∀ b, ((x >>= f) m).1 = .ok b → Q b := by
    intro m hm
    obtain ⟨heq, hnext⟩ := hx.tracks m hm
    have hanswer := hx.answer m hm
    rw [bind_apply, bind_apply, heq]
    -- The environment is still in order where `f` goes on.
    rcases hxm : x m with ⟨e | a, m'⟩ <;> rw [hxm] at hnext hanswer
    · exact ⟨⟨rfl, hnext⟩, nofun⟩
    · have hm' := D.stays hm hnext
      have hfa := hf a (hanswer a rfl)
      obtain ⟨heq', hnext'⟩ := hfa.tracks m' hm'
      exact ⟨⟨heq', D.trans hnext hnext'⟩, hfa.answer m' hm'⟩
  exact ⟨fun m hm => (hrun m hm).1, fun m hm => (hrun m hm).2⟩

theorem Tracks.bind (hx : Tracks D x y) (hf : ∀ a, Tracks D (f a) (g a)) :
    Tracks D (x >>= f) (y >>= g) := by
  have hx' : TracksTo D (fun _ => True) x y := ⟨hx, fun _ _ _ _ => trivial⟩
  have hf' : ∀ a, True → TracksTo D (fun _ => True) (f a) (g a) := fun a _ =>
    ⟨hf a, fun _ _ _ _ => trivial⟩
  exact (hx'.bind hf').tracks

theorem Tracks.map (h : α → β) (hx : Tracks D x y) : Tracks D (h <$> x) (h <$> y) :=
  hx.bind fun a => .pure (h a)

theorem Tracks.attempt (hx : Tracks D x y) : Tracks D (attempt x) (attempt y) := by
  intro m hm
  obtain ⟨heq, hnext⟩ := hx m hm
  unfold Run.attempt
  rw [heq]
  exact ⟨rfl, hnext⟩

theorem Tracks.through (p : Passage) (hx : Tracks D x y) :
    Tracks D (through p x) (through p y) := by
  intro m hm
  obtain ⟨heq, hnext⟩ := hx m hm
  unfold Run.through
  rw [heq]
  rcases hxm : x m with ⟨e | a, m'⟩ <;> rw [hxm] at hnext
  · exact ⟨rfl, hnext⟩
  · exact ⟨rfl, hnext⟩

theorem TracksTo.through (p : Passage) (hx : TracksTo D P x y) :
    TracksTo D P (Run.through p x) (Run.through p y) := by
  refine ⟨hx.tracks.through p, fun m hm a h => hx.answer m hm a ?_⟩
  unfold Run.through at h
  rcases hxm : x m with ⟨e | b, m'⟩ <;> rw [hxm] at h
  · cases h
  · exact h

theorem Tracks.nested (hx : Tracks D x y) : Tracks D (nested x) (nested y) := by
  intro m hm
  obtain ⟨heq, hnext⟩ :=
    hx { m with depth := m.depth + 1, deepest := max m.deepest (m.depth + 1) } hm
  unfold Run.nested
  rw [heq]
  exact ⟨rfl, hnext⟩

theorem Tracks.update {f : Environment → Except Error (α × Environment)}
    (hf : ∀ env a env', f env = .ok (a, env') → D.next env env') :
    Tracks D (update f) (update f) := by
  intro m _
  refine ⟨rfl, ?_⟩
  unfold Run.update
  split
  · next a env' heq => exact hf m.env a env' heq
  · exact D.refl m.env

/-- An operation that may fail, with what is made of its result. -/
theorem Tracks.update_map {γ : Type} {change : Environment → Except Error γ}
    {k : γ → α × Environment} (hk : ∀ env c, change env = .ok c → D.next env (k c).2) :
    Tracks D (Run.update fun env => (change env).map k)
      (Run.update fun env => (change env).map k) := by
  intro m _
  refine ⟨rfl, ?_⟩
  cases h : change m.env with
  | ok c =>
    rw [update_map_of_ok h]
    exact hk m.env c h
  | error e =>
    rw [update_map_of_error h]
    exact D.refl m.env

/-- A scope is entered and left again. -/
theorem Tracks.inFrame (hx : Tracks D x y) : Tracks D (inFrame x) (inFrame y) := by
  intro m hm
  obtain ⟨heq, hnext⟩ := hx { m with env := m.env.pushFrame } (D.pushFrame hm)
  unfold Run.inFrame
  rw [heq]
  exact ⟨rfl, D.popFrame hnext⟩

/-- What happens in another environment does not change this one. -/
theorem Tracks.inEnvironment {env : Environment} (henv : D.ok env) (hx : Tracks D x y) :
    Tracks D (inEnvironment env x) (inEnvironment env y) := by
  intro m _
  obtain ⟨heq, -⟩ := hx { m with env } henv
  unfold Run.inEnvironment
  rw [heq]
  exact ⟨rfl, D.refl m.env⟩

end Run

/-- The evaluators keep to the discipline and cannot be told apart. -/
def Evaluator.Tracks (D : Discipline) (eval eval' : Evaluator) : Prop :=
  ∀ e, Run.Tracks D (eval e) (eval' e)

/-- What the host does with the evaluator it is handed keeps to the discipline if the evaluator
does. -/
structure Host.Obeys (host : Host) (D : Discipline) : Prop where
  raw : ∀ key datum exprs {eval eval' : Evaluator}, Evaluator.Tracks D eval eval' →
    Run.Tracks D (host.raw key datum eval exprs) (host.raw key datum eval' exprs)
  deferred : ∀ key identity datum {eval eval' : Evaluator}, Evaluator.Tracks D eval eval' →
    Run.Tracks D (host.deferred key identity datum eval) (host.deferred key identity datum eval')

end HostLisp
