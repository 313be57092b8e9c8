import HostLisp.Proofs.Evaluation.Activation

/-!
# What evaluation leaves alone

`env.Keeps env'` says that `env'` came about in the scope of `env` without damage: the enclosing
frames are the same, in the innermost one nothing but variables was bound anew, and the cells are
still there, with their names and types, in front of new ones.  A scope that is entered, used and left again
changes even less: only the contents of cells.
-/

namespace HostLisp

/-- What stays of a cell when it is assigned to. -/
def Cell.label (c : Cell) : String × Ty := (c.name, c.ty)

namespace Environment

/-- The name is bound in the innermost frame to a variable whose cell is there. -/
def BindsVar (env : Environment) (name : String) : Prop :=
  ∃ handle : Handle, env.innermost.bindings.find? name = some (.var handle) ∧
    handle.index < env.cells.length

/-- Nothing outside the innermost frame is changed, nothing but variables is bound anew in it, and no
cell is released. -/
structure Keeps (env env' : Environment) : Prop where
  enclosing : env'.enclosing = env.enclosing
  firstCell : env'.innermost.firstCell = env.innermost.firstCell
  bindings : ∀ name, env'.BindsVar name ∨
    env'.innermost.bindings.find? name = env.innermost.bindings.find? name
  labels : env.cells.map Cell.label <+: env'.cells.map Cell.label

variable {env env' env'' : Environment}

theorem Keeps.refl (env : Environment) : env.Keeps env :=
  ⟨rfl, rfl, fun _ => .inr rfl, List.prefix_refl _⟩

theorem Keeps.length_le (h : env.Keeps env') : env.cells.length ≤ env'.cells.length := by
  simpa using h.labels.length_le

theorem Keeps.trans (h : env.Keeps env') (h' : env'.Keeps env'') : env.Keeps env'' where
  enclosing := h'.enclosing.trans h.enclosing
  firstCell := h'.firstCell.trans h.firstCell
  bindings name := by
    obtain hvar | heq' := h'.bindings name
    · exact .inl hvar
    obtain ⟨handle, hb, hlt⟩ | heq := h.bindings name
    · exact .inl ⟨handle, heq'.trans hb, Nat.lt_of_lt_of_le hlt h'.length_le⟩
    · exact .inr (heq'.trans heq)
  labels := h.labels.trans h'.labels

theorem Keeps.frameCount (h : env.Keeps env') : env'.frameCount = env.frameCount := by
  simp [Environment.frameCount, Environment.frames, h.enclosing]

/-- A cell that is there stays, with its name and its type. -/
theorem Keeps.cell? (h : env.Keeps env') {handle : Handle} {c : Cell}
    (hc : env.cell? handle = some c) :
    ∃ c', env'.cell? handle = some c' ∧ c'.name = c.name ∧ c'.ty = c.ty := by
  obtain ⟨ls, hls⟩ := h.labels
  have hlabel : (env.cells.map Cell.label)[handle.index]? = some c.label := by
    rw [List.getElem?_map]
    exact congrArg (Option.map Cell.label) hc
  have hlabel' : (env'.cells.map Cell.label)[handle.index]? = some c.label := by
    rw [← hls, List.getElem?_append_left (List.getElem?_eq_some_iff.1 hlabel).1, hlabel]
  rw [List.getElem?_map] at hlabel'
  obtain ⟨c', hc', hl⟩ := Option.map_eq_some_iff.1 hlabel'
  exact ⟨c', hc', congrArg Prod.fst hl, congrArg Prod.snd hl⟩

theorem keeps_defineVar {name : String} {ty : Ty} {v : Value} {handle : Handle}
    (h : env.defineVar name ty v = .ok (handle, env')) : env.Keeps env' := by
  obtain ⟨rfl, rfl⟩ := exists_of_defineVar h
  refine ⟨rfl, rfl, fun m => ?_, ?_⟩
  · have hfind : Names.find? (Names.insert env.innermost.bindings name (.var ⟨env.cells.length⟩)) m =
        if m = name then some (.var ⟨env.cells.length⟩) else env.innermost.bindings.find? m :=
      Names.find?_insert ..
    by_cases hm : m = name
    · rw [if_pos hm] at hfind
      refine .inl ⟨_, hfind, ?_⟩
      show env.cells.length < (env.cells ++ [_]).length
      simp
    · rw [if_neg hm] at hfind
      exact .inr hfind
  · show _ <+: (env.cells ++ [_]).map Cell.label
    rw [List.map_append]
    exact List.prefix_append ..

theorem keeps_setVar {handle : Handle} {v : Value} (h : env.setVar handle v = .ok env') :
    env.Keeps env' := by
  obtain ⟨cell, hc, rfl⟩ := exists_of_setVar h
  refine ⟨rfl, rfl, fun _ => .inr rfl, ?_⟩
  have hlabels : (env.cells.set handle.index { cell with value := v }).map Cell.label =
      env.cells.map Cell.label := by
    obtain ⟨hlt, hget⟩ := List.getElem?_eq_some_iff.1 hc
    have hlt : handle.index < (env.cells.map Cell.label).length := by simpa using hlt
    have hlabel : Cell.label { cell with value := v } =
        (env.cells.map Cell.label)[handle.index] := by
      rw [List.getElem_map, hget]
      rfl
    rw [List.map_set, hlabel, List.set_getElem_self]
  show _ <+: (env.cells.set handle.index { cell with value := v }).map Cell.label
  exact hlabels.symm ▸ List.prefix_refl _

/-- Leaving a scope restores the frames; the cells made in it go, and no others. -/
theorem Keeps.popFrame (h : env.pushFrame.Keeps env') :
    env'.popFrame.frames = env.frames ∧
      env'.popFrame.cells = env'.cells.take env.cells.length := by
  obtain ⟨innermost, enclosing, cells⟩ := env'
  obtain ⟨henclosing, hfirst, -, -⟩ := h
  simp only [Environment.pushFrame, Environment.frames] at henclosing hfirst
  subst henclosing
  refine ⟨rfl, ?_⟩
  show cells.take innermost.firstCell = _
  rw [hfirst]

theorem keeps_popFrame (h : env.pushFrame.Keeps env') : env.Keeps env'.popFrame := by
  obtain ⟨hframes, hcells⟩ := h.popFrame
  have hlabels : env'.popFrame.cells.map Cell.label = env.cells.map Cell.label := by
    rw [hcells, List.map_take, ← List.length_map Cell.label]
    exact (List.prefix_iff_eq_take.1 h.labels).symm
  have hframes : env'.popFrame.innermost = env.innermost ∧
      env'.popFrame.enclosing = env.enclosing := List.cons.inj hframes
  exact ⟨hframes.2, by rw [hframes.1], fun name => .inr (by rw [hframes.1]),
    hlabels.symm ▸ List.prefix_refl _⟩

end Environment

/-! ### Activations -/

namespace Signature

open Environment

theorem keeps_allocate {env env' : Environment} {bound : List (String × Handle)}
    {cells : List ((String × Ty) × Value)} (h : allocate env cells = .ok (bound, env')) :
    env.Keeps env' := by
  induction cells generalizing env bound with
  | nil =>
    cases h
    exact .refl _
  | cons c cells ih =>
    obtain ⟨handle, env₁, bound', hd, ha⟩ := exists_of_allocate_cons h
    exact (keeps_defineVar hd).trans (ih ha)

end Signature

end HostLisp
