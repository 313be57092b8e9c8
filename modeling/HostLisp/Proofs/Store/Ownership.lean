import HostLisp.Proofs.Evaluation.Builtins
import HostLisp.Proofs.Store.Step

/-!
# Who owns a cell

A frame owns the cells from its mark up to the mark of the next inner frame, the innermost one up to
the end.  Each variable it binds has a cell among these, and no other variable has the same.
Popping the frame releases just them, so no name that is left stands for a cell that is gone, or for
one that has been made anew in the place of it.
-/

namespace HostLisp

/-! ### The cells of a frame -/

namespace Frame

/-- The frame owns the cells from its mark to `limit`: each of its variables has one of its own. -/
structure Owns (f : Frame) (limit : Nat) : Prop where
  mark : f.firstCell ≤ limit
  range : ∀ name handle, f.bindings.find? name = some (.var handle) →
    f.firstCell ≤ handle.index ∧ handle.index < limit
  distinct : ∀ name name' handle, f.bindings.find? name = some (.var handle) →
    f.bindings.find? name' = some (.var handle) → name = name'

/-- The cells up to `limit` are divided among the frames, innermost first. -/
def AllOwn (limit : Nat) : List Frame → Prop
  | [] => limit = 0
  | f :: fs => f.Owns limit ∧ AllOwn f.firstCell fs

variable {f : Frame} {limit : Nat}

theorem Owns.mono {limit' : Nat} (h : f.Owns limit) (hle : limit ≤ limit') : f.Owns limit' where
  mark := h.mark.trans hle
  range name handle hb := by
    obtain ⟨hlo, hhi⟩ := h.range name handle hb
    exact ⟨hlo, hhi.trans_le hle⟩
  distinct := h.distinct

theorem find?_insert_eq_some {bindings : Names Binding} {m n : String} {b b' : Binding}
    (h : (Names.insert bindings n b).find? m = some b') :
    m = n ∧ b = b' ∨ m ≠ n ∧ bindings.find? m = some b' := by
  rw [Names.find?_insert] at h
  split at h
  · next heq =>
    cases h
    exact .inl ⟨heq, rfl⟩
  · next hne => exact .inr ⟨hne, h⟩

/-- Binding a name to something that is no variable takes no cell. -/
theorem Owns.insert (h : f.Owns limit) (name : String) {b : Binding}
    (hb : ∀ handle, b ≠ .var handle) :
    Owns { f with bindings := Names.insert f.bindings name b } limit where
  mark := h.mark
  range m handle hm := by
    rcases find?_insert_eq_some hm with ⟨-, heq⟩ | ⟨-, hm⟩
    · exact absurd heq (hb handle)
    · exact h.range m handle hm
  distinct m m' handle hm hm' := by
    rcases find?_insert_eq_some hm with ⟨-, heq⟩ | ⟨-, hm⟩
    · exact absurd heq (hb handle)
    · rcases find?_insert_eq_some hm' with ⟨-, heq⟩ | ⟨-, hm'⟩
      · exact absurd heq (hb handle)
      · exact h.distinct m m' handle hm hm'

/-- A new variable takes the cell behind the last one. -/
theorem Owns.insert_var (h : f.Owns limit) (name : String) :
    Owns { f with bindings := Names.insert f.bindings name (.var ⟨limit⟩) } (limit + 1) where
  mark := h.mark.trans (Nat.le_succ limit)
  range m handle hm := by
    rcases find?_insert_eq_some hm with ⟨-, heq⟩ | ⟨-, hm⟩
    · cases heq
      exact ⟨h.mark, Nat.lt_succ_self limit⟩
    · obtain ⟨hlo, hhi⟩ := h.range m handle hm
      exact ⟨hlo, hhi.trans (Nat.lt_succ_self limit)⟩
  distinct m m' handle hm hm' := by
    -- Cells of other variables come before the new one.
    rcases find?_insert_eq_some hm with ⟨heq, hb⟩ | ⟨-, hm⟩
    · rcases find?_insert_eq_some hm' with ⟨heq', -⟩ | ⟨-, hm'⟩
      · exact heq.trans heq'.symm
      · cases hb
        exact absurd (h.range m' _ hm').2 (Nat.lt_irrefl limit)
    · rcases find?_insert_eq_some hm' with ⟨-, hb⟩ | ⟨-, hm'⟩
      · cases hb
        exact absurd (h.range m _ hm).2 (Nat.lt_irrefl limit)
      · exact h.distinct m m' handle hm hm'

/-- A new frame owns nothing yet. -/
theorem owns_new (limit : Nat) : Owns { bindings := [], firstCell := limit } limit where
  mark := Nat.le_refl limit
  range name handle h := by cases h
  distinct name name' handle h := by cases h

/-- Where the cells of the frame with number `k` end: at the mark of the one inside it. -/
def cellsEnd (limit : Nat) (fs : List Frame) : Nat → Nat
  | 0 => limit
  | k + 1 => (fs[k]?).elim 0 Frame.firstCell

theorem cellsEnd_cons (limit : Nat) (f : Frame) (fs : List Frame) (k : Nat) :
    cellsEnd limit (f :: fs) (k + 1) = cellsEnd f.firstCell fs k := by
  cases k <;> rfl

theorem cellsEnd_succ {fs : List Frame} {k : Nat} (hf : fs[k]? = some f) :
    cellsEnd limit fs (k + 1) = f.firstCell := by
  show (fs[k]?).elim 0 Frame.firstCell = _
  rw [hf]
  rfl

/-- Each frame owns its cells. -/
theorem AllOwn.owns {fs : List Frame} (h : AllOwn limit fs) {k : Nat} (hf : fs[k]? = some f) :
    f.Owns (cellsEnd limit fs k) := by
  induction fs generalizing limit k with
  | nil => cases hf
  | cons g gs ih =>
    cases k with
    | zero =>
      cases hf
      exact h.1
    | succ k =>
      rw [cellsEnd_cons]
      exact ih h.2 hf

/-- Cells of inner frames come behind those of outer ones. -/
theorem AllOwn.cellsEnd_antitone {fs : List Frame} (h : AllOwn limit fs) :
    Antitone (cellsEnd limit fs) := by
  refine antitone_nat_of_succ_le fun k => ?_
  cases hf : fs[k]? with
  | none =>
    show (fs[k]?).elim 0 Frame.firstCell ≤ _
    rw [hf]
    exact Nat.zero_le _
  | some f =>
    rw [cellsEnd_succ hf]
    exact (h.owns hf).mark

end Frame

namespace Environment

variable {env env' : Environment}

/-- All cells are divided among the frames. -/
def Owned (env : Environment) : Prop := Frame.AllOwn env.cells.length env.frames

/-! ### Steps -/

theorem owned_empty : Environment.empty.Owned := ⟨Frame.owns_new 0, rfl⟩

theorem Owned.define (h : env.Owned) (name : String) {b : Binding}
    (hb : ∀ handle, b ≠ .var handle) : (env.define name b).Owned := ⟨h.1.insert name hb, h.2⟩

/-- Cells that no name stands for may lie behind the last variable. -/
theorem Owned.newVar {name : String} {ty : Ty} {v : Value} {handle : Handle} (h : env.Owned)
    (hn : env.newVar name ty v = .ok (handle, env')) : env'.Owned := by
  obtain ⟨-, -, rfl⟩ := newVar_eq_ok_iff.1 hn
  refine ⟨h.1.mono ?_, h.2⟩
  show env.cells.length ≤ (env.cells ++ [_]).length
  simp

theorem Owned.defineVar {name : String} {ty : Ty} {v : Value} {handle : Handle} (h : env.Owned)
    (hd : env.defineVar name ty v = .ok (handle, env')) : env'.Owned := by
  obtain ⟨rfl, rfl⟩ := exists_of_defineVar hd
  have hlength : (env.cells ++ [Cell.mk name ty v]).length = env.cells.length + 1 := by simp
  refine ⟨?_, h.2⟩
  show Frame.Owns _ (env.cells ++ [_]).length
  rw [hlength]
  exact h.1.insert_var name

theorem Owned.setVar {handle : Handle} {v : Value} (h : env.Owned)
    (hs : env.setVar handle v = .ok env') : env'.Owned := by
  obtain ⟨cell, -, rfl⟩ := exists_of_setVar hs
  show Frame.AllOwn (env.cells.set _ _).length env.frames
  rw [List.length_set]
  exact h

theorem Owned.pushFrame (h : env.Owned) : env.pushFrame.Owned := ⟨Frame.owns_new _, h⟩

theorem Owned.popFrame (h : env.Owned) : env.popFrame.Owned := by
  obtain ⟨innermost, enclosing, cells⟩ := env
  cases enclosing with
  | nil => exact h
  | cons f fs =>
    -- What is left are the cells up to the mark of the frame that goes, where the next frame's end.
    have hlength : (cells.take innermost.firstCell).length = innermost.firstCell := by
      rw [List.length_take]
      exact Nat.min_eq_left h.1.mark
    show Frame.AllOwn (cells.take innermost.firstCell).length (f :: fs)
    rw [hlength]
    exact h.2

theorem Step.owned (h : Step env env') (ho : env.Owned) : env'.Owned := by
  cases h with
  | define name hb => exact ho.define name hb
  | newVar h => exact ho.newVar h
  | defineVar h => exact ho.defineVar h
  | setVar h => exact ho.setVar h
  | pushFrame => exact ho.pushFrame
  | popFrame => exact ho.popFrame

/-! ### Where programs start -/

theorem owned_global : Environment.global.Owned := by
  have hbuiltins : withBuiltins.Owned :=
    withBuiltins_induction owned_empty fun env henv op _ name _ => henv.define name nofun
  exact hbuiltins.define _ nofun

/-! ### Variables and their cells -/

/-- The frame with number `k`, counted from the innermost one, binds the name to the variable. -/
def BindsVarAt (env : Environment) (k : Nat) (name : String) (handle : Handle) : Prop :=
  ∃ f, env.frames[k]? = some f ∧ f.bindings.find? name = some (.var handle)

/-- Where the cells of the frame with number `k` end. -/
def cellsEnd (env : Environment) (k : Nat) : Nat := Frame.cellsEnd env.cells.length env.frames k

/-- The cell of a variable is one of its frame. -/
theorem Owned.range (h : env.Owned) {k : Nat} {name : String} {handle : Handle}
    (hb : env.BindsVarAt k name handle) :
    env.cellsEnd (k + 1) ≤ handle.index ∧ handle.index < env.cellsEnd k := by
  obtain ⟨f, hf, hb⟩ := hb
  have hrange := (Frame.AllOwn.owns h hf).range name handle hb
  have hend : env.cellsEnd (k + 1) = f.firstCell := Frame.cellsEnd_succ hf
  rw [hend]
  exact hrange

theorem Owned.frame_le (h : env.Owned) {k k' : Nat} {name name' : String} {handle : Handle}
    (hb : env.BindsVarAt k name handle) (hb' : env.BindsVarAt k' name' handle) : k ≤ k' := by
  -- Otherwise the cell would lie before the end of an outer frame and behind the mark of an inner.
  by_contra hlt
  have hle : k' + 1 ≤ k := by omega
  have hend : env.cellsEnd k ≤ env.cellsEnd (k' + 1) := Frame.AllOwn.cellsEnd_antitone h hle
  have hrange := h.range hb
  have hrange' := h.range hb'
  omega

/-- No two variables share a cell. -/
theorem Owned.eq_of_bindsVarAt (h : env.Owned) {k k' : Nat} {name name' : String} {handle : Handle}
    (hb : env.BindsVarAt k name handle) (hb' : env.BindsVarAt k' name' handle) :
    k = k' ∧ name = name' := by
  obtain rfl : k = k' := Nat.le_antisymm (h.frame_le hb hb') (h.frame_le hb' hb)
  obtain ⟨f, hf, hb⟩ := hb
  obtain ⟨f', hf', hb'⟩ := hb'
  cases hf.symm.trans hf'
  exact ⟨rfl, (Frame.AllOwn.owns h hf).distinct name name' handle hb hb'⟩

/-- The cell of a variable is live. -/
theorem Owned.exists_var? (h : env.Owned) {k : Nat} {name : String} {handle : Handle}
    (hb : env.BindsVarAt k name handle) : ∃ v, env.var? handle = some v := by
  have hend : env.cellsEnd k ≤ env.cells.length := Frame.AllOwn.cellsEnd_antitone h (Nat.zero_le k)
  have hlt : handle.index < env.cells.length := (h.range hb).2.trans_le hend
  refine ⟨(env.cells[handle.index]).value, ?_⟩
  show (env.cells[handle.index]?).map Cell.value = _
  rw [List.getElem?_eq_getElem hlt]
  rfl

/-- A variable that a name stands for is bound by some frame. -/
theorem exists_bindsVarAt {name : String} {handle : Handle}
    (h : env.lookup name = some (.var handle)) : ∃ k, env.BindsVarAt k name handle := by
  have hget : env.get? name = some (.var handle) := by
    unfold Environment.lookup at h
    split at h
    · next b hb =>
      cases h
      exact hb
    · -- A member of a toolkit is a value.
      split at h
      · cases h
      · split at h
        · obtain ⟨v, -, hv⟩ := Option.map_eq_some_iff.1 h
          cases hv
        · cases h
  obtain ⟨f, hmem, hb⟩ := List.exists_of_findSome?_eq_some hget
  obtain ⟨k, hk⟩ := List.getElem?_of_mem hmem
  exact ⟨k, f, hk, hb⟩

/-- Assigning changes the contents of one cell. -/
theorem var?_setVar {handle : Handle} {v : Value} (h : env.setVar handle v = .ok env')
    (handle' : Handle) :
    env'.var? handle' = if handle' = handle then some v else env.var? handle' := by
  obtain ⟨cell, hc, rfl⟩ := exists_of_setVar h
  show ((env.cells.set handle.index { cell with value := v })[handle'.index]?).map Cell.value = _
  by_cases heq : handle' = handle
  · subst heq
    rw [if_pos rfl, List.getElem?_set_self (List.getElem?_eq_some_iff.1 hc).1]
    rfl
  · have hne : handle.index ≠ handle'.index := by
      intro hindex
      exact heq (congrArg Handle.mk hindex.symm)
    rw [if_neg heq, List.getElem?_set_ne hne]
    rfl

theorem frames_setVar {handle : Handle} {v : Value} (h : env.setVar handle v = .ok env') :
    env'.frames = env.frames := by
  obtain ⟨cell, -, rfl⟩ := exists_of_setVar h
  rfl

end Environment

end HostLisp
