import Mathlib
import HostLisp.Proofs.Evaluation.Keeping
import HostLisp.Proofs.Store.Discipline

/-!
# One operation after the other

What is done to an environment is a course of steps, each of them one operation.  This module says
what a step preserves: every cell holds a value of its type, a cell that stays keeps its name and
type, and each variable that a frame binds has a cell of its own, which goes when the frame goes.
-/

namespace HostLisp

namespace Environment

/-! ### Steps -/

/-- One operation on an environment.  A name is not bound to a variable that is there already. -/
inductive Step : Environment → Environment → Prop where
  | define (env : Environment) (name : String) {b : Binding} (hb : ∀ handle, b ≠ .var handle) :
      Step env (env.define name b)
  | newVar {env env' : Environment} {name : String} {ty : Ty} {v : Value} {handle : Handle}
      (h : env.newVar name ty v = .ok (handle, env')) : Step env env'
  | defineVar {env env' : Environment} {name : String} {ty : Ty} {v : Value} {handle : Handle}
      (h : env.defineVar name ty v = .ok (handle, env')) : Step env env'
  | setVar {env env' : Environment} {handle : Handle} {v : Value}
      (h : env.setVar handle v = .ok env') : Step env env'
  | pushFrame (env : Environment) : Step env env.pushFrame
  | popFrame (env : Environment) : Step env env.popFrame

/-- One operation after the other. -/
def Course : Environment → Environment → Prop := Relation.ReflTransGen Step

variable {env env' : Environment}

theorem Step.course (h : Step env env') : Course env env' := .single h

/-- What every step preserves holds at the end of a course. -/
theorem Course.induct {P : Environment → Prop} (hP : ∀ {env env'}, Step env env' → P env → P env')
    (h : Course env env') (henv : P env) : P env' := by
  induction h with
  | refl => exact henv
  | tail _ hstep ih => exact hP hstep ih

/-- What every step preserves holds all along a course. -/
theorem Course.all_along {P : Environment → Prop}
    (hP : ∀ {env env'}, Step env env' → P env → P env') (h : Course env env') (henv : P env) :
    Relation.ReflTransGen (fun env env' => Step env env' ∧ P env') env env' := by
  induction h with
  | refl => exact .refl
  | tail hcourse hstep ih => exact ih.tail ⟨hstep, hP hstep (Course.induct hP hcourse henv)⟩

/-- A variable is declared by making its cell and binding its name. -/
theorem exists_newVar_of_defineVar {name : String} {ty : Ty} {v : Value} {handle : Handle}
    (h : env.defineVar name ty v = .ok (handle, env')) :
    ∃ env₁, env.newVar name ty v = .ok (handle, env₁) ∧ env' = env₁.define name (.var handle) := by
  unfold Environment.defineVar at h
  cases hn : env.newVar name ty v with
  | error e =>
    rw [hn] at h
    cases h
  | ok x =>
    obtain ⟨handle', env₁⟩ := x
    rw [hn] at h
    cases h
    exact ⟨env₁, rfl, rfl⟩

/-- A variable is assigned only what its type admits. -/
theorem admits_of_setVar {handle : Handle} {v : Value} {cell : Cell}
    (h : env.setVar handle v = .ok env') (hc : env.cell? handle = some cell) :
    cell.ty.admits v = true := by
  unfold Environment.setVar at h
  rw [hc] at h
  cases hf : checkFormal cell.name cell.ty v with
  | error e =>
    simp only [hf, bind, Except.bind] at h
    cases h
  | ok u => exact checkFormal_eq_ok_iff.1 hf

/-! ### Typed cells -/

/-- Every cell holds a value that its type admits. -/
def Typed (env : Environment) : Prop := ∀ c ∈ env.cells, c.ty.admits c.value = true

theorem Typed.newVar {name : String} {ty : Ty} {v : Value} {handle : Handle} (ht : env.Typed)
    (h : env.newVar name ty v = .ok (handle, env')) : env'.Typed := by
  obtain ⟨hv, -, rfl⟩ := newVar_eq_ok_iff.1 h
  intro c hc
  rcases List.mem_append.1 hc with hc | hc
  · exact ht c hc
  · rw [List.mem_singleton.1 hc]
    exact hv

theorem Typed.setVar {handle : Handle} {v : Value} (ht : env.Typed)
    (h : env.setVar handle v = .ok env') : env'.Typed := by
  obtain ⟨cell, hc, rfl⟩ := exists_of_setVar h
  have hv := admits_of_setVar h hc
  intro c hmem
  rcases List.mem_or_eq_of_mem_set hmem with hmem | rfl
  · exact ht c hmem
  · exact hv

theorem Typed.popFrame (ht : env.Typed) : env.popFrame.Typed := by
  unfold Environment.popFrame
  split
  · exact ht
  · intro c hc
    exact ht c (List.mem_of_mem_take hc)

end Environment

end HostLisp
