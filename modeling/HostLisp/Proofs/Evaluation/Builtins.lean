import HostLisp.Global
import HostLisp.Proofs.Evaluation.Scope

/-!
# The environment of built-in operations

In the environment with all built-in operations each name stands for the operation of that name, and
for nothing else.  So forms are behind their own names there, and the comparators are the built-in
ones.
-/

namespace HostLisp

/-- A form goes by its names, and no primitive goes by the name of a form. -/
theorem Builtin.ofName?_of_mem_registry : ∀ op ∈ Builtin.registry, ∀ name ∈ op.names,
    Form.ofName? name = match op with
      | .form f => some f
      | .primitive _ => none := by
  decide

/-- The comparators' names belong to the strict orders. -/
theorem Builtin.eq_of_comparator_mem : ∀ op ∈ Builtin.registry, ∀ lenient,
    comparator lenient ∈ op.names → op = .primitive (.comparison ⟨lenient, false, false⟩) := by
  decide

namespace Environment

/-- What holds of the empty environment and is preserved by binding a built-in operation to one of
its names. -/
theorem withBuiltins_induction {P : Environment → Prop} (hempty : P empty)
    (hdefine : ∀ env, P env → ∀ op ∈ Builtin.registry, ∀ name ∈ op.names,
      P (env.defineValue name (.native (op.native name)))) : P withBuiltins := by
  unfold withBuiltins
  refine List.foldlRecOn _ _ hempty fun env henv op hop => ?_
  exact List.foldlRecOn _ _ henv fun env henv name hname => hdefine env henv op hop name hname

/-- Nothing but built-in operations, behind their names. -/
theorem within_withBuiltins (late : List String) : withBuiltins.Within (.scoped late) := by
  refine withBuiltins_induction within_empty fun env henv op hop name hname => henv.define ?_
  have hform := Builtin.ofName?_of_mem_registry op hop name hname
  cases op with
  | form f => exact .inl ⟨_, rfl, f, hform, rfl⟩
  | primitive p =>
    refine .inr ⟨hform, ?_⟩
    rw [Binding.within_value, Value.Within]
    exact ⟨p, rfl⟩

/-- What a name stands for is the operation of that name. -/
theorem exists_of_get?_withBuiltins {name : String} {b : Binding}
    (h : withBuiltins.get? name = some b) :
    ∃ op ∈ Builtin.registry, name ∈ op.names ∧ b = .value (.native (op.native name)) := by
  revert h
  refine withBuiltins_induction (P := fun env => env.get? name = some b → _) ?_ ?_
  · intro h
    cases h
  · intro env ih op hop name' hname' h
    unfold defineValue at h
    rw [get?_define] at h
    split at h
    · next heq =>
      cases h
      subst heq
      exact ⟨op, hop, hname', rfl⟩
    · exact ih h

end Environment

end HostLisp
