import HostLisp.Proofs.Evaluation.Balanced

/-!
# Two environments side by side

A closure runs in an environment that holds only what was taken along, while the expression it was
made of could have run in the surrounding one.  `env.Mirrors missing k outer` says how the two are
alike while they run side by side: every name stands for the same in both, or for nothing in `env`,
and then the name is among the `missing` ones; the cells of `env` are the last ones of `outer`, which
has `k` more.

A computation is mirrored if it goes the same way on both sides, unless it fails on the first one
because a name is unbound; which names may be lost in that way is the second parameter.
-/

namespace HostLisp

/-- The same binding where `k` more cells come first. -/
def Binding.shift (k : Nat) : Binding → Binding
  | .var h => .var ⟨h.index + k⟩
  | b => b

/-- What stands in for the comparator where it is not bound. -/
def Binding.IsComparator (lenient : Bool) (b : Binding) : Prop :=
  ∃ id, b = .value (.native ⟨id, .builtin (.primitive (.comparison ⟨lenient, false, false⟩))⟩)

namespace Environment

/-- The environment is part of another one as far as names go, apart from missing ones. -/
structure Mirrors (missing : String → Prop) (k : Nat) (env outer : Environment) : Prop where
  get? : ∀ name, outer.get? name = (env.get? name).map (.shift k) ∨
    (env.get? name = none ∧ missing name)
  /-- Where names are missing, none has members and none stands for a deferred computation. -/
  plain : ∀ name, missing name → ∀ other b, outer.get? other = some b →
    (∀ kit, b ≠ .toolkit kit) ∧ ∀ t, b ≠ .value (.deferred t)
  comparator : ∀ lenient b, env.get? (HostLisp.comparator lenient) = none →
    outer.get? (HostLisp.comparator lenient) = some b → b.IsComparator lenient
  cells : ∃ base : List Cell, base.length = k ∧ outer.cells = base ++ env.cells

variable {missing : String → Prop} {k : Nat} {env outer : Environment}

/-- Nothing is missing from the environment itself. -/
theorem Mirrors.refl (env : Environment) : env.Mirrors (fun _ => False) 0 env where
  get? name := by
    left
    cases env.get? name with
    | none => rfl
    | some b => cases b <;> rfl
  plain _ h := h.elim
  comparator lenient b h h' := by
    rw [h] at h'
    cases h'
  cells := ⟨[], rfl, rfl⟩

/-! ### Looking up -/

theorem lookup_of_no_toolkit (h : ∀ name kit, env.get? name ≠ some (.toolkit kit))
    (name : String) : env.lookup name = env.get? name := by
  unfold Environment.lookup
  split
  · next b hb => rw [hb]
  · next hb =>
    rw [hb]
    split
    · rfl
    split
    · next kit hkit => exact absurd hkit (h _ kit)
    · rfl

theorem Mirrors.lookup (h : env.Mirrors missing k outer) (name : String) :
    outer.lookup name = (env.lookup name).map (.shift k) ∨
      (env.lookup name = none ∧ missing name ∧ ∀ t, outer.lookup name ≠ some (.value (.deferred t))) := by
  by_cases hm : ∃ name, missing name
  · -- no toolkit is visible on either side
    obtain ⟨absent, hm⟩ := hm
    have houter : ∀ name kit, outer.get? name ≠ some (.toolkit kit) := fun name kit hk =>
      (h.plain absent hm name _ hk).1 kit rfl
    have henv : ∀ name kit, env.get? name ≠ some (.toolkit kit) := by
      intro name kit hk
      obtain hg | ⟨hg, -⟩ := h.get? name
      · rw [hk] at hg
        exact houter name kit hg
      · rw [hk] at hg
        cases hg
    rw [lookup_of_no_toolkit houter, lookup_of_no_toolkit henv]
    obtain hg | ⟨hg, hname⟩ := h.get? name
    · exact .inl hg
    · exact .inr ⟨hg, hname, fun t ht => (h.plain name hname name _ ht).2 t rfl⟩
  · -- every name is visible on both sides
    have hget : ∀ name, outer.get? name = (env.get? name).map (.shift k) := fun name =>
      (h.get? name).resolve_right fun hname => hm ⟨name, hname.2⟩
    left
    unfold Environment.lookup
    rw [hget name]
    cases hname : env.get? name with
    | some b => rfl
    | none =>
      simp only [Option.map_none]
      split
      · rfl
      · next kit member _ =>
        rw [hget kit]
        cases hkit : env.get? kit with
        | none => rfl
        | some b =>
          cases b with
          | toolkit kit' =>
            show Option.map _ _ = Option.map _ (Option.map _ _)
            rw [Option.map_map]
            rfl
          | _ => rfl

theorem Mirrors.cell? (h : env.Mirrors missing k outer) (handle : Handle) :
    outer.cell? ⟨handle.index + k⟩ = env.cell? handle := by
  obtain ⟨base, hlen, hcells⟩ := h.cells
  unfold Environment.cell?
  rw [hcells, List.getElem?_append_right (by simp [hlen])]
  simp [hlen]

theorem Mirrors.var? (h : env.Mirrors missing k outer) (handle : Handle) :
    outer.var? ⟨handle.index + k⟩ = env.var? handle := by
  unfold Environment.var?
  rw [h.cell?]

/-! ### Changing both -/

/-- A variable declared on both sides, in the last cells. -/
theorem Mirrors.declare (h : env.Mirrors missing k outer) (name : String) (c : Cell) :
    (Environment.define { env with cells := env.cells ++ [c] } name
        (.var ⟨env.cells.length⟩)).Mirrors missing k
      (Environment.define { outer with cells := outer.cells ++ [c] } name
        (.var ⟨outer.cells.length⟩)) := by
  obtain ⟨base, hlen, hcells⟩ := h.cells
  have hlength : outer.cells.length = env.cells.length + k := by
    rw [hcells, List.length_append, hlen, Nat.add_comm]
  refine ⟨fun m => ?_, fun absent hm other b hb => ?_, fun lenient b hn hb => ?_, base, hlen, ?_⟩
  · rw [get?_define, get?_define]
    split
    · left
      simp [Binding.shift, hlength]
    · exact h.get? m
  · rw [get?_define] at hb
    split at hb
    · cases hb
      exact ⟨nofun, nofun⟩
    · exact h.plain absent hm other b hb
  · rw [get?_define] at hn hb
    split at hn
    · cases hn
    · next hne =>
      rw [if_neg hne] at hb
      exact h.comparator lenient b hn hb
  · show outer.cells ++ [c] = base ++ (env.cells ++ [c])
    rw [hcells, List.append_assoc]

theorem Mirrors.defineVar (h : env.Mirrors missing k outer) (name : String) (ty : Ty) (v : Value) :
    (∃ e, env.defineVar name ty v = .error e ∧ outer.defineVar name ty v = .error e) ∨
      ∃ handle env' handle' outer', env.defineVar name ty v = .ok (handle, env') ∧
        outer.defineVar name ty v = .ok (handle', outer') ∧ env'.Mirrors missing k outer' := by
  by_cases ha : ty.admits v = true
  · right
    have hd : ∀ env : Environment, env.defineVar name ty v = .ok (⟨env.cells.length⟩,
        Environment.define { env with cells := env.cells ++ [⟨name, ty, v⟩] } name
          (.var ⟨env.cells.length⟩)) := by
      intro env
      unfold Environment.defineVar
      rw [newVar_eq_ok_iff.2 ⟨ha, rfl, rfl⟩]
      rfl
    exact ⟨_, _, _, _, hd env, hd outer, h.declare name _⟩
  · left
    have hd : ∀ env : Environment,
        env.defineVar name ty v = .error (.typeSign name ty v) := by
      intro env
      simp [Environment.defineVar, Environment.newVar, checkFormal, ha, bind, Except.bind]
    exact ⟨_, hd env, hd outer⟩

theorem Mirrors.setVar (h : env.Mirrors missing k outer) (handle : Handle) (v : Value) :
    (∃ e, env.setVar handle v = .error e ∧ outer.setVar ⟨handle.index + k⟩ v = .error e) ∨
      ∃ env' outer', env.setVar handle v = .ok env' ∧
        outer.setVar ⟨handle.index + k⟩ v = .ok outer' ∧ env'.Mirrors missing k outer' := by
  obtain ⟨base, hlen, hcells⟩ := h.cells
  unfold Environment.setVar
  rw [h.cell?]
  cases env.cell? handle with
  | none => exact .inl ⟨_, rfl, rfl⟩
  | some cell =>
    cases hf : checkFormal cell.name cell.ty v with
    | error e => exact .inl ⟨e, by simp [hf, bind, Except.bind], by simp [hf, bind, Except.bind]⟩
    | ok u =>
      refine .inr ⟨{ env with cells := env.cells.set handle.index { cell with value := v } },
        { outer with cells := outer.cells.set (handle.index + k) { cell with value := v } },
        by simp only [hf, bind, Except.bind]; rfl, by simp only [hf, bind, Except.bind]; rfl,
        ⟨h.get?, h.plain, h.comparator, base, hlen, ?_⟩⟩
      show outer.cells.set (handle.index + k) _ = base ++ env.cells.set handle.index _
      rw [hcells, List.set_append_right _ _ (by omega)]
      simp [hlen]

theorem Mirrors.pushFrame (h : env.Mirrors missing k outer) :
    env.pushFrame.Mirrors missing k outer.pushFrame where
  get? name := by
    rw [get?_pushFrame, get?_pushFrame]
    exact h.get? name
  plain name hm other b hb := by
    rw [get?_pushFrame] at hb
    exact h.plain name hm other b hb
  comparator lenient b hn hb := by
    rw [get?_pushFrame] at hn hb
    exact h.comparator lenient b hn hb
  cells := h.cells

/-- Scopes that were entered side by side are left side by side. -/
theorem Mirrors.popFrame {env' outer' : Environment} (h : env.Mirrors missing k outer)
    (hkeeps : env.pushFrame.Keeps env') (houter : outer.pushFrame.Keeps outer')
    (h' : env'.Mirrors missing k outer') : env'.popFrame.Mirrors missing k outer'.popFrame := by
  obtain ⟨hframes, hcells⟩ := hkeeps.popFrame
  obtain ⟨hframes', hcells'⟩ := houter.popFrame
  have hget : ∀ name, env'.popFrame.get? name = env.get? name := fun name => by
    unfold Environment.get?
    rw [hframes]
  have hget' : ∀ name, outer'.popFrame.get? name = outer.get? name := fun name => by
    unfold Environment.get?
    rw [hframes']
  refine ⟨fun name => ?_, fun name hm other b hb => ?_, fun lenient b hn hb => ?_, ?_⟩
  · rw [hget, hget']
    exact h.get? name
  · rw [hget'] at hb
    exact h.plain name hm other b hb
  · rw [hget] at hn
    rw [hget'] at hb
    exact h.comparator lenient b hn hb
  · obtain ⟨base, hlen, hbase⟩ := h.cells
    obtain ⟨base', hlen', hbase'⟩ := h'.cells
    refine ⟨base', hlen', ?_⟩
    have hlength : outer.cells.length = base'.length + env.cells.length := by
      rw [hbase, List.length_append, hlen, hlen']
    rw [hcells, hcells', hbase', hlength, List.take_length_add_append]

end Environment

end HostLisp
