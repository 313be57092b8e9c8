import HostLisp.Proofs.Evaluation.Balanced

/-!
# Names in scope on every path

The analysis behind a closure takes a name that a branch declares for declared.  `Scope` is the
stricter analysis: only what is declared on every path is in scope behind a form.  It fails where a
name is evaluated that may not stand for anything by then, unless that is among names for which this
may be found out late; and where a form's name is used for anything but that form, as no look at an
expression tells what such a name stands for.
-/

namespace HostLisp

/-- The form that goes by a name. -/
def Form.ofName? (name : String) : Option Form :=
  match Builtin.find? name with
  | some (.form f) => some f
  | _ => none

namespace Scope

section
variable (late : List String)

mutual
/-- The names in scope behind an expression, if it evaluates none that is not. -/
def afterExpr? (scope : List String) : Value → Option (List String)
  | .atom a =>
    if Form.ofName? a.name = none ∧ a.name ∈ late ++ scope then some scope else none
  | .list (.atom a :: args) =>
    if a.name ∈ late ++ scope then
      match Form.ofName? a.name with
      | some f => afterForm? scope f args
      | none => afterBody? scope args
    else none
  | .list (head :: args) => (afterExpr? scope head).bind fun scope => afterBody? scope args
  | _ => some scope
termination_by structural e => e
/-- The names in scope behind a form.  What is in scope behind a choice is so in both cases, and
behind a junction what is so behind the first of its expressions. -/
def afterForm? (scope : List String) : Form → List Value → Option (List String)
  | .lambda, formals :: body =>
    let free := (Free.inBody (parameterNames formals) body).1.eraseDups
    if (∀ name ∈ parameterNames formals, Form.ofName? name = none) ∧
        ∀ name ∈ free, name ∈ late ++ scope then
      (afterBody? (parameterNames formals ++ free) body).map fun _ => scope
    else none
  | .bindings, .list pairs :: body =>
    (afterBindings? scope pairs).bind fun inner => (afterBody? inner body).map fun _ => scope
  | .declare, .atom a :: init =>
    if Form.ofName? a.name = none then (afterBody? scope init).map (a.name :: ·) else none
  | .assign, .atom a :: exprs =>
    (afterBody? scope exprs).bind fun scope =>
      if a.name ∈ late ++ scope then some scope else none
  | .choose, condition :: yes :: no =>
    (afterExpr? scope condition).bind fun scope =>
      (afterExpr? scope yes).bind fun inYes =>
        (afterBody? scope no).map fun inNo => inYes.filter (· ∈ inNo)
  | .conjunction, e :: es | .disjunction, e :: es =>
    (afterExpr? scope e).bind fun scope => (afterBody? scope es).map fun _ => scope
  | _, _ => some scope
termination_by structural _ es => es
/-- The names in scope behind expressions that are evaluated one after the other. -/
def afterBody? (scope : List String) : List Value → Option (List String)
  | [] => some scope
  | e :: es => (afterExpr? scope e).bind fun scope => afterBody? scope es
termination_by structural es => es
/-- The names in scope behind the bindings of a `let` form. -/
def afterBindings? (scope : List String) : List Value → Option (List String)
  | [] => some scope
  | .list (.atom a :: init) :: rest =>
    if Form.ofName? a.name = none then
      (afterBody? scope init).bind fun scope => afterBindings? (a.name :: scope) rest
    else none
  | _ => some scope
termination_by structural pairs => pairs
end

/-- A closure with these parameters that has taken these names along evaluates no others. -/
def Covers (formals : List Atom) (captured : List String) (body : List Value) : Prop :=
  (∀ a ∈ formals, Form.ofName? a.name = none) ∧
    (afterBody? late (formals.map Atom.name ++ captured) body).isSome

instance (formals : List Atom) (captured : List String) (body : List Value) :
    Decidable (Covers late formals captured body) :=
  inferInstanceAs (Decidable (_ ∧ _))

end

end Scope

/-! ### Names of forms -/

theorem Form.mem_names_of_ofName? {name : String} {f : Form} (h : Form.ofName? name = some f) :
    name ∈ f.names := by
  unfold Form.ofName? at h
  split at h
  · next f' hfind =>
    cases h
    have hname := List.find?_some hfind
    exact of_decide_eq_true hname
  · cases h

/-- No form goes by the name of a member. -/
theorem Form.splitMember?_of_ofName? {name : String} {f : Form} (h : Form.ofName? name = some f) :
    Environment.splitMember? name = none := by
  have hname := Form.mem_names_of_ofName? h
  cases f <;> rw [List.mem_singleton.1 hname] <;> rfl

/-- Primitives, forms behind their names only, and closures that cover what they evaluate, apart from
names for which that may be found out late. -/
def Repertoire.scoped (late : List String) : Repertoire where
  native f := ∃ p, f.body = .builtin (.primitive p)
  task _ := False
  closure c := Scope.Covers late c.signature.formals (c.captured.map Prod.fst) c.body ∧
    ∀ x ∈ c.captured, ∀ handle, x.2 ≠ .var handle
  named name f := ∃ form, Form.ofName? name = some form ∧ f.body = .builtin (.form form)
  ordinary name := Form.ofName? name = none
  ordinary_of_member name h := by
    cases hf : Form.ofName? name with
    | none => rfl
    | some f => exact absurd (Form.splitMember?_of_ofName? hf) h

/-! ### Names that stand for something -/

namespace Environment

/-- The name is bound, and if to a variable, then to one whose cell is there. -/
def Holds (env : Environment) (name : String) : Prop :=
  ∃ b, env.get? name = some b ∧ ∀ handle, b = .var handle → handle.index < env.cells.length

variable {env env' : Environment} {name : String}

theorem BindsVar.holds (h : env.BindsVar name) : env.Holds name := by
  obtain ⟨handle, hfind, hlt⟩ := h
  refine ⟨.var handle, ?_, ?_⟩
  · unfold Environment.get? Environment.frames
    rw [List.findSome?_cons, hfind]
  · rintro _ ⟨⟩
    exact hlt

/-- What stands for something goes on doing so. -/
theorem Keeps.holds (h : env.Keeps env') (hname : env.Holds name) : env'.Holds name := by
  obtain hvar | heq := h.bindings name
  · exact hvar.holds
  · obtain ⟨b, hb, hlive⟩ := hname
    refine ⟨b, ?_, fun handle hhandle => Nat.lt_of_lt_of_le (hlive handle hhandle) h.length_le⟩
    unfold Environment.get? Environment.frames at hb ⊢
    rw [List.findSome?_cons] at hb ⊢
    rw [heq, h.enclosing]
    exact hb

theorem holds_defineVar {ty : Ty} {v : Value} {handle : Handle}
    (h : env.defineVar name ty v = .ok (handle, env')) : env'.Holds name := by
  obtain ⟨rfl, rfl⟩ := exists_of_defineVar h
  refine ⟨_, by rw [get?_define, if_pos rfl], ?_⟩
  rintro _ ⟨⟩
  show env.cells.length < (env.cells ++ [_]).length
  simp

theorem Holds.pushFrame (h : env.Holds name) : env.pushFrame.Holds name := by
  obtain ⟨b, hb, hlive⟩ := h
  exact ⟨b, by rwa [get?_pushFrame], hlive⟩

theorem Holds.lookup (h : env.Holds name) : ∃ b, env.lookup name = some b := by
  obtain ⟨b, hb, -⟩ := h
  refine ⟨b, ?_⟩
  unfold Environment.lookup
  rw [hb]

/-- What stands for something can be taken along. -/
theorem Holds.capture? (h : env.Holds name) : env.capture? name ≠ none := by
  obtain ⟨b, hb, hlive⟩ := h
  unfold Environment.capture? Environment.lookup
  rw [hb]
  cases b with
  | var handle =>
    show (env.var? handle).map _ ≠ none
    unfold Environment.var? Environment.cell?
    rw [List.getElem?_eq_getElem (hlive handle rfl)]
    nofun
  | _ => nofun

/-- All names stand for something, apart from those for which that may be found out late. -/
def HoldsAll (env : Environment) (late scope : List String) : Prop :=
  ∀ name ∈ scope, name ∈ late ∨ env.Holds name

variable {late scope : List String}

theorem Keeps.holdsAll (h : env.Keeps env') (hscope : env.HoldsAll late scope) :
    env'.HoldsAll late scope :=
  fun name hname => (hscope name hname).imp_right h.holds

theorem HoldsAll.mem (h : env.HoldsAll late scope) (hname : name ∈ late ++ scope) :
    name ∈ late ∨ env.Holds name :=
  (List.mem_append.1 hname).elim .inl (h name)

theorem holds_ofCaptured {captured : Names Binding}
    (hvars : ∀ x ∈ captured, ∀ handle, x.2 ≠ .var handle) (hname : name ∈ captured.map Prod.fst) :
    (ofCaptured captured).Holds name := by
  have hfind : captured.find? name ≠ none := by
    intro hnone
    obtain ⟨x, hx, rfl⟩ := List.mem_map.1 hname
    exact absurd rfl (bne_iff_ne.1 (List.lookup_eq_none_iff.1 hnone x hx))
  obtain ⟨b, hb⟩ := Option.ne_none_iff_exists'.1 hfind
  rw [← get?_ofCaptured] at hb
  refine ⟨b, hb, fun handle hhandle => ?_⟩
  rw [get?_ofCaptured] at hb
  exact absurd hhandle (hvars _ (Names.mem_of_find? hb) handle)

end Environment

/-! ### Activations -/

namespace Signature

open Environment

variable {env env' : Environment} {bound : List (String × Handle)} {actuals : List Value}

theorem holds_allocate {cells : List ((String × Ty) × Value)}
    (h : allocate env cells = .ok (bound, env')) : ∀ c ∈ cells, env'.Holds c.1.1 := by
  induction cells generalizing env bound with
  | nil => exact nofun
  | cons c cells ih =>
    obtain ⟨handle, env₁, bound', hd, ha⟩ := exists_of_allocate_cons h
    exact List.forall_mem_cons.2 ⟨(keeps_allocate ha).holds (holds_defineVar hd), ih ha⟩

/-- All parameters stand for something, and what stood for something goes on doing so. -/
theorem holds_bind {s : Signature} (h : s.bind env actuals = .ok (bound, env')) :
    env.Keeps env' ∧ ∀ name ∈ s.formals.map Atom.name, env'.Holds name := by
  obtain ⟨values, hvalues, ha⟩ := exists_of_bind h
  obtain ⟨hlen, -⟩ := isDrawn_of_matchArguments hvalues
  refine ⟨keeps_allocate ha, fun name hname => ?_⟩
  have hzip : (s.cellTypes.zip values).map Prod.fst = s.cellTypes := List.map_fst_zip (by omega)
  rw [← names_cellTypes, ← hzip, List.map_map] at hname
  obtain ⟨c, hc, rfl⟩ := List.mem_map.1 hname
  exact holds_allocate ha c hc

end Signature

/-- An activation holds the parameters and what was captured. -/
theorem Lambda.holdsAll_bind {late : List String} {closure : Lambda} {actuals : List Value}
    {env : Environment} {bound : List (String × Handle)}
    (hvars : ∀ x ∈ closure.captured, ∀ handle, x.2 ≠ .var handle)
    (h : closure.signature.bind (Environment.ofCaptured closure.captured).pushFrame actuals =
      .ok (bound, env)) :
    env.HoldsAll late
      (closure.signature.formals.map Atom.name ++ closure.captured.map Prod.fst) := by
  obtain ⟨hkeeps, hformals⟩ := Signature.holds_bind h
  intro name hname
  right
  obtain hname | hname := List.mem_append.1 hname
  · exact hformals name hname
  · exact hkeeps.holds (Environment.holds_ofCaptured hvars hname).pushFrame

end HostLisp
