import HostLisp.Eval

/-!
# What values contain

Values hold other values: lists their items, quotes what they quote, closures what they have taken
along and their bodies.  A `Repertoire` says which callables may occur at any depth, and
`Value.Within` that no others do.  In the bindings of a name it may allow more than elsewhere, or
nothing else.
-/

namespace HostLisp

/-- The callables that may occur in values. -/
structure Repertoire where
  native : Native → Prop
  task : Deferred → Prop
  /-- A condition on a closure itself; what it contains has to be in the repertoire anyway. -/
  closure : Lambda → Prop := fun _ => True
  /-- A native that may be bound to a name, even if it may occur nowhere else. -/
  named : String → Native → Prop := fun _ _ => False
  /-- Whether a name may be bound to anything but such a native. -/
  ordinary : String → Prop := fun _ => True
  /-- A name with a point in it may, since it may be that of a member. -/
  ordinary_of_member : ∀ name, Environment.splitMember? name ≠ none → ordinary name := by
    intro name _
    trivial

section
variable (R : Repertoire)

mutual
/-- All callables in the value are in the repertoire. -/
def Value.Within : Value → Prop
  | .list items => Value.AllWithin items
  | .quote inner => Value.Within inner
  | .lambda _ closure => Lambda.Within closure
  | .deferred task => R.task task
  | .native callable => R.native callable
  | _ => True
/-- All callables in the values are in the repertoire. -/
def Value.AllWithin : List Value → Prop
  | [] => True
  | v :: vs => Value.Within v ∧ Value.AllWithin vs
/-- The closure is in the repertoire, and so are all callables in it. -/
def Lambda.Within : Lambda → Prop
  | ⟨s, captured, body⟩ =>
    R.closure ⟨s, captured, body⟩ ∧ Binding.AllWithin captured ∧ Value.AllWithin body
/-- All callables behind the names are in the repertoire. -/
def Binding.AllWithin : List (String × Binding) → Prop
  | [] => True
  | (name, b) :: bs =>
    ((∃ f, b = .value (.native f) ∧ R.named name f) ∨ R.ordinary name ∧ Binding.Within b) ∧
      Binding.AllWithin bs
/-- All callables in what a name is bound to are in the repertoire. -/
def Binding.Within : Binding → Prop
  | .value v => Value.Within v
  | .toolkit kit => Toolkit.Within kit
  | _ => True
/-- All callables in the members are in the repertoire. -/
def Toolkit.Within : Toolkit → Prop
  | ⟨_, members⟩ => Toolkit.MembersWithin members
/-- All callables in some members of a toolkit are in the repertoire. -/
def Toolkit.MembersWithin : List (String × Value) → Prop
  | [] => True
  | (_, v) :: members => Value.Within v ∧ Toolkit.MembersWithin members
end

/-- What a name stands for is in the repertoire. -/
def Binding.WithinAt (name : String) (b : Binding) : Prop :=
  (∃ f, b = .value (.native f) ∧ R.named name f) ∨ b.Within R

/-- The name may be bound to this. -/
def Binding.FitsAt (name : String) (b : Binding) : Prop :=
  (∃ f, b = .value (.native f) ∧ R.named name f) ∨ R.ordinary name ∧ b.Within R

/-- All callables in the frames and in the cells are in the repertoire. -/
structure Environment.Within (env : Environment) : Prop where
  frames : ∀ f ∈ env.frames, Binding.AllWithin R f.bindings
  cells : ∀ c ∈ env.cells, c.value.Within R

end

variable {R : Repertoire}

/-! ### Lists of values and bindings -/

theorem Value.allWithin_iff {vs : List Value} :
    Value.AllWithin R vs ↔ ∀ v ∈ vs, v.Within R := by
  induction vs with
  | nil => simp [Value.AllWithin]
  | cons v vs ih => simp [Value.AllWithin, ih]

theorem Binding.allWithin_iff {bs : Names Binding} :
    Binding.AllWithin R bs ↔ ∀ e ∈ bs, Binding.FitsAt R e.1 e.2 := by
  induction bs with
  | nil => simp [Binding.AllWithin]
  | cons e bs ih =>
    obtain ⟨name, b⟩ := e
    simp [Binding.AllWithin, Binding.FitsAt, ih]

theorem Toolkit.membersWithin_iff {members : Names Value} :
    Toolkit.MembersWithin R members ↔ ∀ e ∈ members, e.2.Within R := by
  induction members with
  | nil => simp [Toolkit.MembersWithin]
  | cons e members ih =>
    obtain ⟨name, v⟩ := e
    simp [Toolkit.MembersWithin, ih]

theorem Binding.FitsAt.within {name : String} {b : Binding} (h : Binding.FitsAt R name b) :
    Binding.WithinAt R name b :=
  h.imp_right And.right

theorem Binding.within_value {v : Value} : (Binding.value v).Within R ↔ v.Within R := by
  rw [Binding.Within]

theorem Binding.within_var (handle : Handle) : (Binding.var handle).Within R := by
  simp [Binding.Within]

theorem Names.mem_of_find? {α : Type} {ns : Names α} {name : String} {a : α}
    (h : ns.find? name = some a) : (name, a) ∈ ns := by
  obtain ⟨l₁, l₂, rfl, -⟩ := List.lookup_eq_some_iff.1 h
  simp

/-! ### Environments -/

namespace Environment

theorem Within.get? {env : Environment} (h : env.Within R) {name : String} {b : Binding}
    (hb : env.get? name = some b) : Binding.FitsAt R name b := by
  obtain ⟨f, hf, hfind⟩ := List.exists_of_findSome?_eq_some hb
  exact Binding.allWithin_iff.1 (h.frames f hf) _ (Names.mem_of_find? hfind)

theorem Within.member {env : Environment} (h : env.Within R) {name member : String}
    {kit : Toolkit} {v : Value} (hkit : env.get? name = some (.toolkit kit))
    (hv : Names.find? kit.members member = some v) : v.Within R := by
  obtain ⟨f, hf, -⟩ | ⟨-, hwithin⟩ := h.get? hkit
  · cases hf
  · obtain ⟨kitName, members⟩ := kit
    rw [Binding.Within, Toolkit.Within, Toolkit.membersWithin_iff] at hwithin
    exact hwithin _ (Names.mem_of_find? hv)

/-- A name that stands for something may be bound to it. -/
theorem Within.fitsAt_lookup {env : Environment} (h : env.Within R) {name : String} {b : Binding}
    (hb : env.lookup name = some b) : Binding.FitsAt R name b := by
  unfold Environment.lookup at hb
  split at hb
  · next b' hget =>
    cases hb
    exact h.get? hget
  split at hb
  · cases hb
  split at hb
  · next kit member hsplit _ kit' hkit =>
    obtain ⟨v, hv, rfl⟩ := Option.map_eq_some_iff.1 hb
    refine .inr ⟨R.ordinary_of_member name ?_, Binding.within_value.2 (h.member hkit hv)⟩
    rw [hsplit]
    nofun
  · cases hb

theorem Within.lookup {env : Environment} (h : env.Within R) {name : String} {b : Binding}
    (hb : env.lookup name = some b) : Binding.WithinAt R name b :=
  (h.fitsAt_lookup hb).within

theorem Within.var? {env : Environment} (h : env.Within R) {handle : Handle} {v : Value}
    (hv : env.var? handle = some v) : v.Within R := by
  obtain ⟨c, hc, rfl⟩ := Option.map_eq_some_iff.1 hv
  exact h.cells c (List.mem_of_getElem? hc)

theorem Within.define {env : Environment} (h : env.Within R) {name : String} {b : Binding}
    (hb : Binding.FitsAt R name b) : (env.define name b).Within R where
  frames f hf := by
    obtain rfl | hf := List.mem_cons.1 hf
    · refine Binding.allWithin_iff.2 fun e he => ?_
      obtain rfl | he := List.mem_cons.1 he
      · exact hb
      · exact Binding.allWithin_iff.1 (h.frames _ List.mem_cons_self) e (List.mem_filter.1 he).1
    · exact h.frames f (List.mem_cons_of_mem _ hf)
  cells := h.cells

/-- A variable goes into a new cell at the end, and its name is bound in the innermost frame. -/
theorem exists_of_defineVar {env env' : Environment} {name : String} {ty : Ty} {v : Value}
    {handle : Handle} (h : env.defineVar name ty v = .ok (handle, env')) :
    handle = ⟨env.cells.length⟩ ∧
      env' = Environment.define { env with cells := env.cells ++ [⟨name, ty, v⟩] } name
        (.var handle) := by
  unfold Environment.defineVar at h
  cases hn : env.newVar name ty v with
  | error e =>
    rw [hn] at h
    cases h
  | ok x =>
    obtain ⟨handle', env''⟩ := x
    rw [hn] at h
    cases h
    obtain ⟨-, rfl, rfl⟩ := newVar_eq_ok_iff.1 hn
    exact ⟨rfl, rfl⟩

/-- Assigning replaces the contents of a live cell and nothing else. -/
theorem exists_of_setVar {env env' : Environment} {handle : Handle} {v : Value}
    (h : env.setVar handle v = .ok env') :
    ∃ cell, env.cell? handle = some cell ∧
      env' = { env with cells := env.cells.set handle.index { cell with value := v } } := by
  unfold Environment.setVar at h
  cases hc : env.cell? handle with
  | none =>
    rw [hc] at h
    cases h
  | some cell =>
    rw [hc] at h
    refine ⟨cell, rfl, ?_⟩
    cases hf : checkFormal cell.name cell.ty v with
    | error e =>
      simp only [hf, bind, Except.bind] at h
      cases h
    | ok u =>
      simp only [hf, bind, Except.bind, pure, Except.pure, Except.ok.injEq] at h
      exact h.symm

theorem Within.defineVar {env env' : Environment} (h : env.Within R) {name : String} {ty : Ty}
    {v : Value} {handle : Handle} (hname : R.ordinary name) (hv : v.Within R)
    (hd : env.defineVar name ty v = .ok (handle, env')) : env'.Within R := by
  obtain ⟨-, rfl⟩ := exists_of_defineVar hd
  have hcells : Environment.Within R { env with cells := env.cells ++ [⟨name, ty, v⟩] } := by
    refine ⟨h.frames, fun c hc => ?_⟩
    obtain hc | hc := List.mem_append.1 hc
    · exact h.cells c hc
    · rw [List.mem_singleton.1 hc]
      exact hv
  exact hcells.define (.inr ⟨hname, Binding.within_var handle⟩)

theorem Within.setVar {env env' : Environment} (h : env.Within R) {handle : Handle} {v : Value}
    (hv : v.Within R) (hs : env.setVar handle v = .ok env') : env'.Within R := by
  obtain ⟨cell, -, rfl⟩ := exists_of_setVar hs
  refine ⟨h.frames, fun c hc => ?_⟩
  obtain hc | rfl := List.mem_or_eq_of_mem_set hc
  · exact h.cells c hc
  · exact hv

theorem Within.pushFrame {env : Environment} (h : env.Within R) : env.pushFrame.Within R where
  frames f hf := by
    obtain rfl | hf := List.mem_cons.1 hf
    · trivial
    · exact h.frames f hf
  cells := h.cells

theorem Within.popFrame {env : Environment} (h : env.Within R) : env.popFrame.Within R := by
  unfold Environment.popFrame
  split
  · exact h
  · next f fs hfs =>
    refine ⟨fun g hg => h.frames g ?_, fun c hc => h.cells c (List.mem_of_mem_take hc)⟩
    unfold Environment.frames
    rw [hfs]
    exact List.mem_cons_of_mem _ hg

theorem within_empty : empty.Within R where
  frames f hf := by
    obtain rfl | hf := List.mem_cons.1 hf
    · exact True.intro
    · cases hf
  cells c hc := by cases hc

theorem Within.defineValue {env : Environment} (h : env.Within R) {name : String} {v : Value}
    (hname : R.ordinary name) (hv : v.Within R) : (env.defineValue name v).Within R :=
  h.define (.inr ⟨hname, Binding.within_value.2 hv⟩)

theorem within_ofCaptured {captured : Names Binding} (h : Binding.AllWithin R captured) :
    (ofCaptured captured).Within R where
  frames f hf := by
    obtain rfl | hf := List.mem_cons.1 hf
    · exact h
    · cases hf
  cells c hc := by cases hc

end Environment

end HostLisp
