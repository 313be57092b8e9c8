import HostLisp.Proofs.Evaluation.Simulation
import HostLisp.Proofs.Store.Discipline

/-!
# Evaluation keeps to a discipline

Tracking is kept by everything that evaluation is made of, whatever the discipline and whatever
callables there are; so evaluation tracks itself, on all levels (`tracks_eval`).
-/

namespace HostLisp

/-! ### No callable left out -/

/-- All callables, wherever they may be. -/
def Repertoire.everything : Repertoire where
  native _ := True
  task _ := True

mutual
theorem Value.within_everything : ∀ v : Value, v.Within .everything
  | .list items => by
    rw [Value.Within]
    exact Value.allWithin_everything items
  | .quote inner => by
    rw [Value.Within]
    exact Value.within_everything inner
  | .lambda _ ⟨s, captured, body⟩ => by
    rw [Value.Within, Lambda.Within]
    exact ⟨trivial, Binding.allWithin_everything captured, Value.allWithin_everything body⟩
  | .deferred task => by
    rw [Value.Within]
    trivial
  | .native callable => by
    rw [Value.Within]
    trivial
  | .int _ | .float _ | .bool _ | .char _ | .string _ | .nil | .atom _ | .time _ | .duration _
  | .host _ => by simp [Value.Within]
theorem Value.allWithin_everything : ∀ vs : List Value, Value.AllWithin .everything vs
  | [] => by simp [Value.AllWithin]
  | v :: vs => by
    rw [Value.AllWithin]
    exact ⟨Value.within_everything v, Value.allWithin_everything vs⟩
theorem Binding.allWithin_everything :
    ∀ bs : List (String × Binding), Binding.AllWithin .everything bs
  | [] => by simp [Binding.AllWithin]
  | (name, b) :: bs => by
    rw [Binding.AllWithin]
    exact ⟨.inr ⟨trivial, Binding.within_everything b⟩, Binding.allWithin_everything bs⟩
theorem Binding.within_everything : ∀ b : Binding, b.Within .everything
  | .value v => by
    rw [Binding.Within]
    exact Value.within_everything v
  | .toolkit ⟨name, members⟩ => by
    rw [Binding.Within, Toolkit.Within]
    exact Toolkit.membersWithin_everything members
  | .var _ | .type _ => by simp [Binding.Within]
theorem Toolkit.membersWithin_everything :
    ∀ members : List (String × Value), Toolkit.MembersWithin .everything members
  | [] => by simp [Toolkit.MembersWithin]
  | (_, v) :: members => by
    rw [Toolkit.MembersWithin]
    exact ⟨Value.within_everything v, Toolkit.membersWithin_everything members⟩
end

theorem Environment.within_everything (env : Environment) : env.Within .everything where
  frames f _ := Binding.allWithin_everything f.bindings
  cells c _ := Value.within_everything c.value

/-! ### Evaluation -/

/-- Tracking is kept by everything that evaluation is made of. -/
def Simulation.tracking (D : Discipline) : Simulation .everything where
  rel := Run.TracksTo D
  error _ := True
  catches := True
  any _ := trivial
  pure := .pure
  fail _ := .fail _
  bind := .bind
  attempt _ hx := ⟨hx.tracks.attempt, fun _ _ _ _ _ _ => trivial⟩
  environment := ⟨.environment, fun _ _ env _ => env.within_everything⟩
  lookup name := ⟨.lookup name, fun _ _ _ _ b _ => .inr b.within_everything⟩
  freshIdentity := ⟨.freshIdentity, fun _ _ _ _ => trivial⟩
  through p _ _ hx := hx.through p
  declare _ _ := ⟨.update_map fun _ _ h => D.defineVar h, fun _ _ _ _ => trivial⟩
  assign _ := ⟨.update_map fun _ _ h => D.setVar h, fun _ _ v _ => v.within_everything⟩
  inFrame hx := ⟨hx.tracks.inFrame, fun m hm => hx.answer _ (D.pushFrame hm)⟩
  inActivation hbind _ hx := by
    -- Binding the parameters declares variables, which an environment in order survives.
    have henv := D.stays (D.activation _) (Signature.next_bind hbind)
    exact ⟨hx.tracks.inEnvironment henv, fun m _ => hx.answer _ henv⟩

/-- An evaluator that takes a detour wherever the environment is not in order. -/
noncomputable def Evaluator.orDetour (eval : Evaluator) (D : Discipline) (detour : Evaluator) :
    Evaluator :=
  fun e m =>
    open Classical in
    if D.ok m.env then eval e m else detour e m

theorem Evaluator.Tracks.orDetour {D : Discipline} {eval eval' : Evaluator}
    (h : Evaluator.Tracks D eval eval') (detour : Evaluator) :
    Evaluator.Tracks D eval (eval'.orDetour D detour) := by
  intro e m hm
  obtain ⟨heq, hnext⟩ := h e m hm
  refine ⟨?_, hnext⟩
  unfold Evaluator.orDetour
  rw [if_pos hm]
  exact heq

/-- Evaluation that takes a detour wherever it starts, on any level and in any activation, in an
environment that is not in order. -/
noncomputable def evalOrDetour (host : Host) (D : Discipline) (detour : Evaluator) :
    Nat → Evaluator
  | 0 => Evaluator.orDetour (fun _ => Run.fail (.ofFailure .depthLimit)) D detour
  | n + 1 =>
    Evaluator.orDetour
      (fun expr => Run.nested (evalShape host ⟨n, evalOrDetour host D detour n⟩ expr)) D detour

theorem tracks_reach {D : Discipline} {n : Nat} {eval eval' : Evaluator} (operands : List Value) :
    Run.Tracks D (Level.reach ⟨n, eval⟩ operands) (Level.reach ⟨n, eval'⟩ operands) := by
  unfold Level.reach
  split
  · exact .pure ()
  · split
    · exact .fail _
    · exact .nested (.pure ())

/-- An expression is tracked on levels where evaluation is. -/
theorem tracks_evalShape {host : Host} {D : Discipline} {n : Nat} {eval eval' : Evaluator}
    (hhost : host.Obeys D) (heval : Evaluator.Tracks D eval eval') (expr : Value) :
    Run.Tracks D (evalShape host ⟨n, eval⟩ expr) (evalShape host ⟨n, eval'⟩ expr) := by
  have hvalue : ∀ {x y : Run Value}, Run.Tracks D x y →
      Run.TracksTo D (Value.Within .everything) x y :=
    fun h => ⟨h, fun _ _ v _ => v.within_everything⟩
  have hlevels : (Simulation.tracking D).Levels host ⟨n, eval⟩ ⟨n, eval'⟩ := {
    closure := fun _ => trivial
    named := fun _ _ => id
    ordinary := fun _ => trivial
    order := fun _ _ => trivial
    eval := fun e _ => hvalue (heval e)
    reach := fun operands => ⟨tracks_reach operands, fun _ _ _ _ => trivial⟩
    raw := fun _ key datum exprs _ _ => hvalue (hhost.raw key datum exprs heval)
    operation := fun _ _ _ v _ _ _ => v.within_everything
    task := fun t _ => hvalue (hhost.deferred t.key t.identity t.datum heval) }
  exact (Simulation.rel_evalShape hlevels expr.within_everything).tracks

/-- Evaluation keeps to the discipline and never takes a detour, by induction on the levels left. -/
theorem tracks_eval {host : Host} {D : Discipline} (hhost : host.Obeys D) (detour : Evaluator)
    (n : Nat) : Evaluator.Tracks D (eval host n) (evalOrDetour host D detour n) := by
  induction n with
  | zero =>
    have hfail : Evaluator.Tracks D (eval host 0) fun _ => Run.fail (.ofFailure .depthLimit) :=
      fun e => .fail _
    exact hfail.orDetour detour
  | succ n ih =>
    have hstep : Evaluator.Tracks D (eval host (n + 1)) fun expr =>
        Run.nested (evalShape host ⟨n, evalOrDetour host D detour n⟩ expr) :=
      fun e => (tracks_evalShape hhost ih e).nested
    exact hstep.orDetour detour

end HostLisp
