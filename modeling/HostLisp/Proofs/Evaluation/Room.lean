import HostLisp.Host.Sample
import HostLisp.Proofs.Evaluation.Simulation
import Mathlib

/-!
# Room for nested evaluations

How many evaluations may nest decides whether a run is cut off, and nothing else: with more room a
run that was not cut off goes exactly the same way.  No part of the evaluator looks at the depth, and
only three-way comparison recovers from an error; so this holds wherever that operation is out of
reach.
-/

namespace HostLisp

/-- The nesting of evaluations has reached its limit. -/
def Error.IsDepthLimit : Error → Prop
  | .failure .depthLimit _ => True
  | _ => False

theorem Error.IsDepthLimit.through {e : Error} (h : e.IsDepthLimit) (p : Passage) :
    (e.through p).IsDepthLimit := by
  cases e with
  | failure cause trail =>
    cases cause with
    | depthLimit => trivial
    | _ => exact h.elim
  | _ => exact h.elim

/-- Built-in operations but three-way comparison, and closures over them. -/
def Repertoire.withoutOrder : Repertoire where
  native f := ∃ op, f.body = .builtin op ∧ op ≠ .primitive .order
  task _ := False

/-- The machines differ in how deep evaluations are and have been, and in nothing else. -/
structure Machine.Alike (R : Repertoire) (m m' : Machine) : Prop where
  within : m.env.Within R
  env : m'.env = m.env
  world : m'.world = m.world

namespace Run

variable {α β : Type} {R : Repertoire} {P : α → Prop} {Q : β → Prop} {x y : Run α}
  {f g : α → Run β}

/-- The first computation is cut off because too many evaluations nest, or both end alike. -/
def CutsOff (R : Repertoire) (P : α → Prop) (x y : Run α) : Prop :=
  ∀ m m' : Machine, m.Alike R m' →
    (∃ e, (x m).1 = .error e ∧ e.IsDepthLimit) ∨
      ((y m').1 = (x m).1 ∧ (x m).2.Alike R (y m').2 ∧ ∀ a, (x m).1 = .ok a → P a)

theorem CutsOff.pure {a : α} (h : P a) : CutsOff R P (Pure.pure a) (Pure.pure a) := by
  refine fun m m' halike => .inr ⟨rfl, halike, ?_⟩
  rintro b ⟨⟩
  exact h

theorem CutsOff.fail (e : Error) : CutsOff R P (fail e) (Run.fail e) :=
  fun _ _ halike => .inr ⟨rfl, halike, nofun⟩

theorem CutsOff.bind (hx : CutsOff R P x y) (hf : ∀ a, P a → CutsOff R Q (f a) (g a)) :
    CutsOff R Q (x >>= f) (y >>= g) := by
  intro m m' halike
  have hx := hx m m' halike
  rw [bind_apply, bind_apply]
  rcases hxm : x m with ⟨e | a, m₁⟩ <;> rw [hxm] at hx
  · obtain ⟨e', he, hlimit⟩ | ⟨heq, halike', -⟩ := hx
    · cases he
      exact .inl ⟨e, rfl, hlimit⟩
    · rcases hym : y m' with ⟨r, m₁'⟩
      rw [hym] at heq halike'
      cases heq
      exact .inr ⟨rfl, halike', nofun⟩
  · obtain ⟨e', he, -⟩ | ⟨heq, halike', hP⟩ := hx
    · cases he
    · rcases hym : y m' with ⟨r, m₁'⟩
      rw [hym] at heq halike'
      cases heq
      exact hf a (hP a rfl) m₁ m₁' halike'

theorem CutsOff.through (p : Passage) (hx : CutsOff R P x y) :
    CutsOff R P (through p x) (through p y) := by
  intro m m' halike
  have hx := hx m m' halike
  unfold Run.through
  rcases hxm : x m with ⟨e | a, m₁⟩ <;> rw [hxm] at hx
  · obtain ⟨e', he, hlimit⟩ | ⟨heq, halike', -⟩ := hx
    · cases he
      exact .inl ⟨e.through p, rfl, hlimit.through p⟩
    · rcases hym : y m' with ⟨r, m₁'⟩
      rw [hym] at heq halike'
      cases heq
      exact .inr ⟨rfl, halike', nofun⟩
  · obtain ⟨e', he, -⟩ | ⟨heq, halike', hP⟩ := hx
    · cases he
    · rcases hym : y m' with ⟨r, m₁'⟩
      rw [hym] at heq halike'
      cases heq
      exact .inr ⟨rfl, halike', hP⟩

/-- The one place where the depth changes. -/
theorem CutsOff.nested (hx : CutsOff R P x y) : CutsOff R P (nested x) (nested y) := by
  intro m m' ⟨hwithin, henv, hworld⟩
  obtain h | ⟨heq, halike, hP⟩ :=
    hx { m with depth := m.depth + 1, deepest := max m.deepest (m.depth + 1) }
      { m' with depth := m'.depth + 1, deepest := max m'.deepest (m'.depth + 1) }
      ⟨hwithin, henv, hworld⟩
  · exact .inl h
  · exact .inr ⟨heq, ⟨halike.within, halike.env, halike.world⟩, hP⟩

/-- A change of the environment, with what is made of its result, that keeps to the repertoire. -/
theorem CutsOff.update_map {γ : Type} {change : Environment → Except Error γ}
    {k : γ → α × Environment}
    (hk : ∀ env c, env.Within R → change env = .ok c → (k c).2.Within R ∧ P (k c).1) :
    CutsOff R P (update fun env => (change env).map k) (update fun env => (change env).map k) := by
  intro m m' halike
  right
  cases h : change m.env with
  | error e =>
    have h' : change m'.env = .error e := by rw [halike.env, h]
    rw [update_map_of_error h, update_map_of_error h']
    exact ⟨rfl, halike, nofun⟩
  | ok c =>
    have h' : change m'.env = .ok c := by rw [halike.env, h]
    obtain ⟨hwithin, hP⟩ := hk m.env c halike.within h
    rw [update_map_of_ok h, update_map_of_ok h']
    refine ⟨rfl, ⟨hwithin, rfl, halike.world⟩, ?_⟩
    rintro a ⟨⟩
    exact hP

theorem CutsOff.inFrame (hx : CutsOff R P x y) : CutsOff R P (inFrame x) (inFrame y) := by
  intro m m' ⟨hwithin, henv, hworld⟩
  obtain h | ⟨heq, halike, hP⟩ := hx { m with env := m.env.pushFrame }
    { m' with env := m'.env.pushFrame }
    ⟨hwithin.pushFrame, congrArg Environment.pushFrame henv, hworld⟩
  · exact .inl h
  · exact .inr ⟨heq, ⟨halike.within.popFrame, congrArg Environment.popFrame halike.env,
      halike.world⟩, hP⟩

theorem CutsOff.inEnvironment {env : Environment} (henv : env.Within R) (hx : CutsOff R P x y) :
    CutsOff R P (inEnvironment env x) (inEnvironment env y) := by
  intro m m' ⟨hwithin, hsame, hworld⟩
  obtain h | ⟨heq, halike, hP⟩ := hx { m with env } { m' with env } ⟨henv, rfl, hworld⟩
  · exact .inl h
  · exact .inr ⟨heq, ⟨hwithin, hsame, halike.world⟩, hP⟩

end Run

/-- Cutting off is kept by everything that does not recover from errors. -/
def Simulation.cuttingOff : Simulation .withoutOrder where
  rel := Run.CutsOff .withoutOrder
  error _ := True
  catches := False
  any _ := trivial
  pure := .pure
  fail _ := .fail _
  bind := .bind
  through p _ _ := .through p
  attempt := False.elim
  environment m m' halike := by
    have hsame : Except.ok m'.env = Except.ok (ε := Error) m.env := congrArg _ halike.env
    refine .inr ⟨hsame, halike, ?_⟩
    rintro env ⟨⟩
    exact halike.within
  lookup name m m' halike := by
    have hsame : Except.ok (m'.env.lookup name) = Except.ok (ε := Error) (m.env.lookup name) := by
      rw [halike.env]
    refine .inr ⟨hsame, halike, ?_⟩
    rintro b ⟨⟩ b' hb'
    exact halike.within.lookup hb'
  freshIdentity m m' halike := by
    refine .inr ⟨?_, ⟨halike.within, halike.env, ?_⟩, fun _ _ => trivial⟩
    · exact congrArg (fun w : World => Except.ok w.nextIdentity) halike.world
    · exact congrArg (fun w : World => { w with nextIdentity := w.nextIdentity + 1 }) halike.world
  declare _ hv := .update_map fun _ _ henv h => ⟨henv.defineVar trivial hv h, trivial⟩
  assign hv := .update_map fun _ _ henv h => ⟨henv.setVar hv h, hv⟩
  inFrame := .inFrame
  inActivation _ := .inEnvironment

/-! ### Evaluation -/

section
variable {host : Host} {n n' : Nat}

theorem cutsOff_reach (h : n ≤ n') {eval eval' : Evaluator} (operands : List Value) :
    Run.CutsOff .withoutOrder (fun _ => True) (Level.reach ⟨n, eval⟩ operands)
      (Level.reach ⟨n', eval'⟩ operands) := by
  unfold Level.reach
  split
  · exact Simulation.cuttingOff.pure trivial
  dsimp only
  by_cases hn : n = 0
  · rw [if_pos hn]
    exact fun _ _ _ => .inl ⟨_, rfl, trivial⟩
  · rw [if_neg hn, if_neg (by omega)]
    exact .nested (Simulation.cuttingOff.pure trivial)

/-- Evaluation with less room is cut off, or goes as with more, by induction on the levels left. -/
theorem cutsOff_eval (h : n ≤ n') {e : Value} (he : e.Within .withoutOrder) :
    Run.CutsOff .withoutOrder (Value.Within .withoutOrder) (eval host n e) (eval host n' e) := by
  induction n generalizing n' e with
  | zero => exact fun _ _ _ => .inl ⟨_, rfl, trivial⟩
  | succ n ih =>
    obtain ⟨n', rfl⟩ : ∃ k, n' = k + 1 := ⟨n' - 1, by omega⟩
    have hle : n ≤ n' := Nat.le_of_succ_le_succ h
    have hlevels : Simulation.cuttingOff.Levels host ⟨n, eval host n⟩ ⟨n', eval host n'⟩ := {
      closure := fun _ => trivial
      named := fun _ _ => id
      ordinary := fun _ => trivial
      order := fun id ⟨op, hop, hne⟩ => by
        cases hop
        exact hne rfl
      eval := fun e he => ih hle he
      reach := cutsOff_reach hle
      raw := fun id key datum _ ⟨op, hop, _⟩ => by cases hop
      operation := fun id key _ _ ⟨op, hop, _⟩ => by cases hop
      task := fun _ => False.elim }
    exact .nested (Simulation.rel_evalShape hlevels he)

end

/-- Where three-way comparison is out of reach, an evaluation that is not cut off because too many
nest has the same outcome from any lesser depth, and leaves the same environment and world behind. -/
theorem eval_of_depth_le {host : Host} {m m' : Machine} {e : Value} (hdepth : m'.depth ≤ m.depth)
    (henv : m'.env = m.env) (hworld : m'.world = m.world) (hwithin : m.env.Within .withoutOrder)
    (he : e.Within .withoutOrder)
    (hlimit : ∀ trail, (eval host (maxEvalDepth - m.depth) e m).1 ≠
      .error (.failure .depthLimit trail)) :
    (eval host (maxEvalDepth - m'.depth) e m').1 = (eval host (maxEvalDepth - m.depth) e m).1 ∧
      (eval host (maxEvalDepth - m'.depth) e m').2.env =
        (eval host (maxEvalDepth - m.depth) e m).2.env ∧
      (eval host (maxEvalDepth - m'.depth) e m').2.world =
        (eval host (maxEvalDepth - m.depth) e m).2.world := by
  have hle : maxEvalDepth - m.depth ≤ maxEvalDepth - m'.depth := Nat.sub_le_sub_left hdepth _
  obtain ⟨e', he', hcut⟩ | ⟨heq, halike, -⟩ :=
    @cutsOff_eval host _ _ hle e he m m' ⟨hwithin, henv, hworld⟩
  · cases e' with
    | failure cause trail =>
      cases cause with
      | depthLimit => exact absurd he' (hlimit trail)
      | _ => exact hcut.elim
    | _ => exact hcut.elim
  · exact ⟨heq, halike.env, halike.world⟩

/-- A list that just fits under the limit. -/
theorem eval_of_depth_le_list :
    let env := Environment.empty.defineValue "list" (.native ⟨"list", .builtin (.primitive .list)⟩)
    (eval Host.Sample.host maxEvalDepth (.list [.ofName "list", .int 1]) { env }).1 =
      .ok (.list [.int 1]) := by
  intro env
  have hnative : Value.Within .withoutOrder (.native ⟨"list", .builtin (.primitive .list)⟩) := by
    rw [Value.Within]
    exact ⟨.primitive .list, rfl, nofun⟩
  have henv : env.Within .withoutOrder := Environment.within_empty.defineValue trivial hnative
  have hdeep : (eval Host.Sample.host (maxEvalDepth - 126) (.list [.ofName "list", .int 1])
      { env, depth := 126 }).1 = .ok (.list [.int 1]) := by
    unfold env
    cbv
  have hexpr : Value.Within .withoutOrder (.list [.ofName "list", .int 1]) := by
    simp [Value.Within, Value.AllWithin, Value.ofName]
  have h := @eval_of_depth_le Host.Sample.host { env, depth := 126 } { env } _ (Nat.zero_le _)
    rfl rfl henv hexpr fun trail hcut => by
      rw [hdeep] at hcut
      cases hcut
  exact h.1.trans hdeep

/-- Three-way comparison takes being cut off for an answer that is still open, so the limit decides
what it says: this comparator needs more room where it holds than where it does not. -/
theorem eval_order_of_room :
    let less : Lambda := ⟨{ fixed := [{ name := "x" }, { name := "y" }] },
      [("if", .value (.native ⟨"if", .builtin (.form .choose)⟩)),
        ("not", .value (.native ⟨"not", .builtin (.primitive .not)⟩))],
      [.list [.ofName "if", .ofName "x", .list [.ofName "not", .list [.ofName "not", .ofName "x"]],
        .bool true]]⟩
    let env := (Environment.empty.defineValue "cmp"
      (.native ⟨"cmp", .builtin (.primitive .order)⟩)).defineValue "<" (.lambda 1 less)
    let e := Value.list [.ofName "cmp", .quote (.list [.bool true]), .quote (.list [.bool false])]
    (eval Host.Sample.host 4 e { env, depth := 124 }).1 = .ok (.int 1) ∧
      (eval Host.Sample.host 5 e { env, depth := 123 }).1 = .ok (.int (-1)) := by
  intro less env e
  unfold env e less
  constructor
  · cbv
  · cbv

end HostLisp
