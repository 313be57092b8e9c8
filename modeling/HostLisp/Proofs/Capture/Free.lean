import HostLisp.Closure

/-!
# Free occurrences

Which occurrences of a name are free, as rules: one for each place of an expression that is evaluated.
They rest on rules for scopes, which say what names are bound behind an expression,

    Leaves scope e scope' : in `scope`, the forms of `e` are well formed and `scope'` is behind it.

The look at the body that finds the free names follows the rules where the forms are well formed:

    mem_inBody_iff : LeavesAll scope body scope' →
      (name ∈ (inBody scope body).1 ↔ OccursIn name scope body).
-/

namespace HostLisp.Free

/-! ### Scopes -/

/-- The head of a list stands for the form with this name: it is written so, and nothing in scope has
that name. -/
def Opens (scope : List String) (form : String) (head : Value) : Prop :=
  ∃ a : Atom, head = .atom a ∧ a.name = form ∧ form ∉ scope

/-- The head of a list stands for none of the forms that bind or hide names. -/
def OpensNone (scope : List String) (head : Value) : Prop :=
  ∀ form ∈ ["quote", "lambda", "let", "var"], ¬ Opens scope form head

/-- Neither an atom nor a list: nothing in it is evaluated. -/
def IsInert (v : Value) : Prop := (∀ a, v ≠ .atom a) ∧ ∀ items, v ≠ .list items

mutual
/-- The scope behind an expression whose forms are well formed.  A declaration is in scope from there
on, however deep in applications it stands; what `lambda` and `let` bind, and what is declared inside
of them, is not. -/
inductive Leaves : List String → Value → List String → Prop
  | atom {scope : List String} {a : Atom} : Leaves scope (.atom a) scope
  | inert {scope : List String} {v : Value} (h : IsInert v) : Leaves scope v scope
  | empty {scope : List String} : Leaves scope (.list []) scope
  | quote {scope : List String} {head : Value} {args : List Value}
      (h : Opens scope "quote" head) : Leaves scope (.list (head :: args)) scope
  | lambda {scope scope' : List String} {head : Value} {formals : List Atom} {body : List Value}
      (h : Opens scope "lambda" head)
      (hbody : LeavesAll (formals.map Atom.name ++ scope) body scope') :
      Leaves scope (.list (head :: .list (formals.map .atom) :: body)) scope
  | bindings {scope inner scope' : List String} {head : Value} {pairs body : List Value}
      (h : Opens scope "let" head) (hpairs : LeavesPairs scope pairs inner)
      (hbody : LeavesAll inner body scope') : Leaves scope (.list (head :: .list pairs :: body)) scope
  | declare {scope scope' : List String} {head : Value} {a : Atom} {init : List Value}
      (h : Opens scope "var" head) (hinit : LeavesAll scope init scope') :
      Leaves scope (.list (head :: .atom a :: init)) (a.name :: scope')
  | application {scope scope' : List String} {head : Value} {args : List Value}
      (h : OpensNone scope head) (hitems : LeavesAll scope (head :: args) scope') :
      Leaves scope (.list (head :: args)) scope'
/-- The scope behind expressions that are evaluated one after the other. -/
inductive LeavesAll : List String → List Value → List String → Prop
  | nil {scope : List String} : LeavesAll scope [] scope
  | cons {scope scope' scope'' : List String} {e : Value} {es : List Value}
      (h : Leaves scope e scope') (hs : LeavesAll scope' es scope'') :
      LeavesAll scope (e :: es) scope''
/-- The scope behind the pairs of a `let` form: a name is in scope behind its own initial value. -/
inductive LeavesPairs : List String → List Value → List String → Prop
  | nil {scope : List String} : LeavesPairs scope [] scope
  | cons {scope scope' scope'' : List String} {a : Atom} {init pairs : List Value}
      (hinit : LeavesAll scope init scope') (hpairs : LeavesPairs (a.name :: scope') pairs scope'') :
      LeavesPairs scope (.list (.atom a :: init) :: pairs) scope''
end

/-! ### Occurrences -/

mutual
/-- A name occurs in an expression where it is evaluated and not in scope. -/
inductive Occurs (name : String) : List String → Value → Prop
  | atom {scope : List String} {a : Atom} (h : a.name = name) (hfree : name ∉ scope) :
      Occurs name scope (.atom a)
  | head {scope : List String} {head : Value} {args : List Value} (h : Occurs name scope head) :
      Occurs name scope (.list (head :: args))
  | lambda {scope : List String} {head : Value} {formals : List Atom} {body : List Value}
      (h : Opens scope "lambda" head)
      (hbody : OccursIn name (formals.map Atom.name ++ scope) body) :
      Occurs name scope (.list (head :: .list (formals.map .atom) :: body))
  | init {scope : List String} {head : Value} {pairs body : List Value}
      (h : Opens scope "let" head) (hpairs : OccursInPairs name scope pairs) :
      Occurs name scope (.list (head :: .list pairs :: body))
  | bindings {scope inner : List String} {head : Value} {pairs body : List Value}
      (h : Opens scope "let" head) (hpairs : LeavesPairs scope pairs inner)
      (hbody : OccursIn name inner body) : Occurs name scope (.list (head :: .list pairs :: body))
  | declare {scope : List String} {head : Value} {a : Atom} {init : List Value}
      (h : Opens scope "var" head) (hinit : OccursIn name scope init) :
      Occurs name scope (.list (head :: .atom a :: init))
  | argument {scope scope' : List String} {head : Value} {args : List Value}
      (h : OpensNone scope head) (hhead : Leaves scope head scope')
      (hargs : OccursIn name scope' args) : Occurs name scope (.list (head :: args))
/-- A name occurs in one of some expressions; what those before it declare is in scope. -/
inductive OccursIn (name : String) : List String → List Value → Prop
  | here {scope : List String} {e : Value} {es : List Value} (h : Occurs name scope e) :
      OccursIn name scope (e :: es)
  | later {scope scope' : List String} {e : Value} {es : List Value} (he : Leaves scope e scope')
      (h : OccursIn name scope' es) : OccursIn name scope (e :: es)
/-- A name occurs in one of the initial values of a `let` form. -/
inductive OccursInPairs (name : String) : List String → List Value → Prop
  | here {scope : List String} {a : Atom} {init pairs : List Value}
      (h : OccursIn name scope init) : OccursInPairs name scope (.list (.atom a :: init) :: pairs)
  | later {scope scope' : List String} {a : Atom} {init pairs : List Value}
      (hinit : LeavesAll scope init scope') (h : OccursInPairs name (a.name :: scope') pairs) :
      OccursInPairs name scope (.list (.atom a :: init) :: pairs)
end

/-! ### The look at an expression -/

theorem inForm_none (scope : List String) (es : List Value) :
    inForm scope .none es = inBody scope es := by
  cases es <;> rfl

theorem parameterNames_map (formals : List Atom) :
    parameterNames (.list (formals.map .atom)) = formals.map Atom.name := by
  show atomNames (formals.map .atom) = _
  induction formals with
  | nil => rfl
  | cons a formals ih => simpa [atomNames] using ih

section
variable {scope : List String} {head : Value} {form : String}

theorem inExpr_of_isInert {v : Value} (h : IsInert v) : inExpr scope v = ([], scope) := by
  cases v with
  | atom a => exact absurd rfl (h.1 a)
  | list items => exact absurd rfl (h.2 items)
  | _ => rfl

/-- A head that opens a form stands for the binder of that name. -/
theorem Opens.ofHead_eq (h : Opens scope form head) :
    Binder.ofHead scope head = Binder.ofHead [] (.ofName form) := by
  obtain ⟨a, rfl, rfl, hfree⟩ := h
  simp [Binder.ofHead, Value.ofName, hfree]

/-- Nothing is bound behind the head of a form. -/
theorem Opens.inExpr_snd (h : Opens scope form head) : (inExpr scope head).2 = scope := by
  obtain ⟨a, rfl, -⟩ := h
  rfl

/-- The head of a form is an atom, and the only name that occurs in it is its own. -/
theorem Opens.occurs {name : String} (h : Opens scope form head)
    (hmem : name ∈ (inExpr scope head).1) : Occurs name scope head := by
  obtain ⟨a, rfl, rfl, hfree⟩ := h
  obtain rfl : name = a.name := by simpa [inExpr, hfree] using hmem
  exact .atom rfl hfree

theorem OpensNone.ofHead_eq (h : OpensNone scope head) : Binder.ofHead scope head = .none := by
  cases head with
  | atom a =>
    by_cases hscope : a.name ∈ scope
    · simp [Binder.ofHead, hscope]
    · have hne : ∀ form ∈ ["quote", "lambda", "let", "var"], a.name ≠ form := by
        rintro form hform rfl
        exact h _ hform ⟨a, rfl, rfl, hscope⟩
      simp only [List.forall_mem_cons] at hne
      simp [Binder.ofHead, hscope, hne]
  | _ => rfl

theorem inExpr_list (scope : List String) (head : Value) (args : List Value) :
    inExpr scope (.list (head :: args)) =
      ((inExpr scope head).1 ++ (inForm (inExpr scope head).2 (Binder.ofHead scope head) args).1,
        (inForm (inExpr scope head).2 (Binder.ofHead scope head) args).2) := rfl

theorem Opens.inExpr_eq (h : Opens scope form head) (args : List Value) :
    inExpr scope (.list (head :: args)) =
      ((inExpr scope head).1 ++ (inForm scope (Binder.ofHead [] (.ofName form)) args).1,
        (inForm scope (Binder.ofHead [] (.ofName form)) args).2) := by
  rw [inExpr_list, h.ofHead_eq, h.inExpr_snd]

theorem inExpr_quote (h : Opens scope "quote" head) (args : List Value) :
    inExpr scope (.list (head :: args)) = ((inExpr scope head).1, scope) := by
  have hargs : inForm scope .quote args = ([], scope) := by cases args <;> rfl
  have heq : inExpr scope (.list (head :: args)) =
      ((inExpr scope head).1 ++ (inForm scope .quote args).1, (inForm scope .quote args).2) :=
    h.inExpr_eq args
  rw [heq, hargs, List.append_nil]

theorem inExpr_lambda (h : Opens scope "lambda" head) (formals : List Atom) (body : List Value) :
    inExpr scope (.list (head :: .list (formals.map .atom) :: body)) =
      ((inExpr scope head).1 ++ (inBody (formals.map Atom.name ++ scope) body).1, scope) := by
  rw [← parameterNames_map]
  exact h.inExpr_eq _

theorem inExpr_let (h : Opens scope "let" head) (pairs body : List Value) :
    inExpr scope (.list (head :: .list pairs :: body)) =
      ((inExpr scope head).1 ++ ((inBindings scope pairs).1 ++
        (inBody (inBindings scope pairs).2 body).1), scope) :=
  h.inExpr_eq _

theorem inExpr_var (h : Opens scope "var" head) (a : Atom) (init : List Value) :
    inExpr scope (.list (head :: .atom a :: init)) =
      ((inExpr scope head).1 ++ (inBody scope init).1, a.name :: (inBody scope init).2) :=
  h.inExpr_eq _

theorem inExpr_application (h : OpensNone scope head) (args : List Value) :
    inExpr scope (.list (head :: args)) = inBody scope (head :: args) := by
  rw [inExpr_list, h.ofHead_eq, inForm_none, inBody]

end

theorem inBindings_cons (scope : List String) (a : Atom) (init pairs : List Value) :
    inBindings scope (.list (.atom a :: init) :: pairs) =
      ((inBody scope init).1 ++ (inBindings (a.name :: (inBody scope init).2) pairs).1,
        (inBindings (a.name :: (inBody scope init).2) pairs).2) := rfl

/-! ### The scope behind an expression -/

mutual
theorem Leaves.inExpr_snd : {scope scope' : List String} → {e : Value} → Leaves scope e scope' →
    (inExpr scope e).2 = scope'
  | _, _, _, .atom => rfl
  | _, _, _, .inert h => by rw [inExpr_of_isInert h]
  | _, _, _, .empty => rfl
  | _, _, _, .quote h => by rw [inExpr_quote h]
  | _, _, _, .lambda h _ => by rw [inExpr_lambda h]
  | _, _, _, .bindings h _ _ => by rw [inExpr_let h]
  | _, _, _, .declare h hinit => by rw [inExpr_var h, hinit.inBody_snd]
  | _, _, _, .application h hitems => by rw [inExpr_application h, hitems.inBody_snd]
theorem LeavesAll.inBody_snd : {scope scope' : List String} → {es : List Value} →
    LeavesAll scope es scope' → (inBody scope es).2 = scope'
  | _, _, _, .nil => rfl
  | _, _, _, .cons h hs => by rw [inBody, h.inExpr_snd, hs.inBody_snd]
end

theorem LeavesPairs.inBindings_snd {scope scope' : List String} {pairs : List Value}
    (h : LeavesPairs scope pairs scope') : (inBindings scope pairs).2 = scope' := by
  induction pairs generalizing scope with
  | nil =>
    cases h
    rfl
  | cons pair pairs ih =>
    cases h with
    | cons hinit hpairs => rw [inBindings_cons, hinit.inBody_snd, ih hpairs]

/-! ### Names that are met -/

mutual
/-- A name that occurs is met. -/
theorem Occurs.mem_inExpr {name : String} : {scope : List String} → {e : Value} →
    Occurs name scope e → name ∈ (inExpr scope e).1
  | scope, _, .atom h hfree => by
    subst h
    simp [inExpr, hfree]
  | _, _, .head h => List.mem_append_left _ h.mem_inExpr
  | _, _, .lambda h hbody => by
    rw [inExpr_lambda h]
    exact List.mem_append_right _ hbody.mem_inBody
  | _, _, .init h hpairs => by
    rw [inExpr_let h]
    exact List.mem_append_right _ (List.mem_append_left _ hpairs.mem_inBindings)
  | _, _, .bindings h hpairs hbody => by
    rw [inExpr_let h, hpairs.inBindings_snd]
    exact List.mem_append_right _ (List.mem_append_right _ hbody.mem_inBody)
  | _, _, .declare h hinit => by
    rw [inExpr_var h]
    exact List.mem_append_right _ hinit.mem_inBody
  | _, _, .argument h hhead hargs => by
    rw [inExpr_application h, inBody, hhead.inExpr_snd]
    exact List.mem_append_right _ hargs.mem_inBody
theorem OccursIn.mem_inBody {name : String} : {scope : List String} → {es : List Value} →
    OccursIn name scope es → name ∈ (inBody scope es).1
  | _, _, .here h => List.mem_append_left _ h.mem_inExpr
  | _, _, .later he h => by
    rw [inBody, he.inExpr_snd]
    exact List.mem_append_right _ h.mem_inBody
theorem OccursInPairs.mem_inBindings {name : String} : {scope : List String} →
    {pairs : List Value} → OccursInPairs name scope pairs → name ∈ (inBindings scope pairs).1
  | _, _, .here h => List.mem_append_left _ h.mem_inBody
  | _, _, .later hinit h => by
    rw [inBindings_cons, hinit.inBody_snd]
    exact List.mem_append_right _ h.mem_inBindings
end

mutual
/-- A name that is met occurs, where the forms are well formed. -/
theorem Leaves.occurs {name : String} : {scope scope' : List String} → {e : Value} →
    Leaves scope e scope' → name ∈ (inExpr scope e).1 → Occurs name scope e
  | scope, _, _, .atom, hmem => by
    rename_i a
    by_cases hfree : a.name ∈ scope
    · simp [inExpr, hfree] at hmem
    · obtain rfl : name = a.name := by simpa [inExpr, hfree] using hmem
      exact .atom rfl hfree
  | _, _, _, .inert h, hmem => by
    rw [inExpr_of_isInert h] at hmem
    cases hmem
  | _, _, _, .empty, hmem => by cases hmem
  | _, _, _, .quote h, hmem => by
    rw [inExpr_quote h] at hmem
    exact .head (h.occurs hmem)
  | _, _, _, .lambda h hbody, hmem => by
    rw [inExpr_lambda h] at hmem
    obtain hmem | hmem := List.mem_append.1 hmem
    · exact .head (h.occurs hmem)
    · exact .lambda h (hbody.occursIn hmem)
  | _, _, _, .bindings h hpairs hbody, hmem => by
    rw [inExpr_let h, hpairs.inBindings_snd] at hmem
    obtain hmem | hmem := List.mem_append.1 hmem
    · exact .head (h.occurs hmem)
    obtain hmem | hmem := List.mem_append.1 hmem
    · exact .init h (hpairs.occursInPairs hmem)
    · exact .bindings h hpairs (hbody.occursIn hmem)
  | _, _, _, .declare h hinit, hmem => by
    rw [inExpr_var h] at hmem
    obtain hmem | hmem := List.mem_append.1 hmem
    · exact .head (h.occurs hmem)
    · exact .declare h (hinit.occursIn hmem)
  | _, _, _, .application h (.cons hhead hargs), hmem => by
    rw [inExpr_application h, inBody, hhead.inExpr_snd] at hmem
    obtain hmem | hmem := List.mem_append.1 hmem
    · exact .head (hhead.occurs hmem)
    · exact .argument h hhead (hargs.occursIn hmem)
theorem LeavesAll.occursIn {name : String} : {scope scope' : List String} → {es : List Value} →
    LeavesAll scope es scope' → name ∈ (inBody scope es).1 → OccursIn name scope es
  | _, _, _, .nil, hmem => by cases hmem
  | _, _, _, .cons h hs, hmem => by
    rw [inBody, h.inExpr_snd] at hmem
    obtain hmem | hmem := List.mem_append.1 hmem
    · exact .here (h.occurs hmem)
    · exact .later h (hs.occursIn hmem)
theorem LeavesPairs.occursInPairs {name : String} : {scope scope' : List String} →
    {pairs : List Value} → LeavesPairs scope pairs scope' → name ∈ (inBindings scope pairs).1 →
      OccursInPairs name scope pairs
  | _, _, _, .nil, hmem => by cases hmem
  | _, _, _, .cons hinit hpairs, hmem => by
    rw [inBindings_cons, hinit.inBody_snd] at hmem
    obtain hmem | hmem := List.mem_append.1 hmem
    · exact .here (hinit.occursIn hmem)
    · exact .later hinit (hpairs.occursInPairs hmem)
end

/-- Where the forms of a body are well formed, the names met in it are those that occur in it. -/
theorem mem_inBody_iff {name : String} {scope scope' : List String} {body : List Value}
    (h : LeavesAll scope body scope') :
    name ∈ (inBody scope body).1 ↔ OccursIn name scope body :=
  ⟨h.occursIn, OccursIn.mem_inBody⟩

end HostLisp.Free
