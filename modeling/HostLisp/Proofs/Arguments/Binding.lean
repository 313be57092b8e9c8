import HostLisp.Machine
import HostLisp.Proofs.Arguments.Matching
import HostLisp.Proofs.Evaluation.Activation

/-!
# Binding arguments

Arguments are checked before any variable is made, and each variable checks its value once more.
The second check never fails: further arguments of which each fits the marker's type make a list
that fits the type of such lists.  So binding is all or nothing, although the variables are made in
place, one after the other, and a failure on the way would leave those made before it:

    bind_all_or_nothing : either the check fails and nothing has changed, or there is one new cell
      for each parameter, and nothing else has changed.
-/

namespace HostLisp

/-! ### Environments with further variables -/

/-- What makes a cell. -/
def Cell.entry (c : Cell) : (String × Ty) × Value := ((c.name, c.ty), c.value)

namespace Environment

variable {env env' : Environment} {c : Cell} {new : List Cell}

/-- A new cell behind the others, and its name bound to it in the innermost frame. -/
def addVariable (env : Environment) (c : Cell) : Environment :=
  { env with cells := env.cells ++ [c] }.define c.name (.var ⟨env.cells.length⟩)

theorem defineVar_of_admits (h : c.ty.admits c.value = true) (env : Environment) :
    env.defineVar c.name c.ty c.value = .ok (⟨env.cells.length⟩, env.addVariable c) := by
  have hnew : env.newVar c.name c.ty c.value =
      .ok (⟨env.cells.length⟩, { env with cells := env.cells ++ [c] }) :=
    newVar_eq_ok_iff.2 ⟨h, rfl, rfl⟩
  unfold defineVar
  rw [hnew]
  rfl

theorem find?_addVariable (env : Environment) (c : Cell) (name : String) :
    (env.addVariable c).innermost.bindings.find? name =
      if name = c.name then some (.var ⟨env.cells.length⟩)
      else env.innermost.bindings.find? name :=
  Names.find?_insert ..

/-- There are new cells behind the others, the innermost frame binds their names to them, and
nothing else is different. -/
structure Gains (env : Environment) (new : List Cell) (env' : Environment) : Prop where
  cells : env'.cells = env.cells ++ new
  binds : ∀ i c, new[i]? = some c →
    env'.innermost.bindings.find? c.name = some (.var ⟨env.cells.length + i⟩)
  others : ∀ name, name ∉ new.map Cell.name →
    env'.innermost.bindings.find? name = env.innermost.bindings.find? name
  mark : env'.innermost.firstCell = env.innermost.firstCell
  enclosing : env'.enclosing = env.enclosing

theorem Gains.refl (env : Environment) : env.Gains [] env where
  cells := (List.append_nil _).symm
  binds _ _ h := nomatch h
  others _ _ := rfl
  mark := rfl
  enclosing := rfl

/-- One variable and, under other names, those made behind it. -/
theorem Gains.cons (hname : c.name ∉ new.map Cell.name) (h : (env.addVariable c).Gains new env') :
    env.Gains (c :: new) env' where
  cells := by
    rw [h.cells]
    exact List.append_assoc env.cells [c] new
  binds i d hd := by
    cases i with
    | zero =>
      -- No later variable has the name, so the frame still binds it to this cell.
      cases hd
      rw [h.others _ hname, find?_addVariable, if_pos rfl]
      rfl
    | succ i =>
      have hlength : (env.addVariable c).cells.length = env.cells.length + 1 :=
        List.length_append
      rw [h.binds i d hd, hlength, Nat.add_right_comm, Nat.add_assoc]
  others name hnot := by
    rw [List.map_cons, List.mem_cons, not_or] at hnot
    rw [h.others name hnot.2, find?_addVariable, if_neg hnot.1]
  mark := h.mark
  enclosing := h.enclosing

end Environment

namespace Signature

/-! ### Making variables in place -/

/-- Makes variables one by one in the innermost frame.  Those made before a failure stay. -/
def allocateInPlace : List ((String × Ty) × Value) → Run (List (String × Handle))
  | [] => return []
  | ((name, ty), v) :: rest => do
    let h ← Run.update fun env => env.defineVar name ty v
    let bound ← allocateInPlace rest
    return (name, h) :: bound

/-- Checks the arguments, then makes one variable for each parameter in place. -/
def bindInPlace (s : Signature) (actuals : List Value) : Run (List (String × Handle)) := do
  let values ← Run.ofExcept (s.matchArguments actuals)
  allocateInPlace (s.cellTypes.zip values)

/-- Where all variables can be made, making them in place comes to the same. -/
theorem allocateInPlace_of_allocate {entries : List ((String × Ty) × Value)} {m : Machine}
    {bound : List (String × Handle)} {env' : Environment}
    (h : allocate m.env entries = .ok (bound, env')) :
    allocateInPlace entries m = (.ok bound, { m with env := env' }) := by
  induction entries generalizing m bound with
  | nil =>
    cases h
    rfl
  | cons e entries ih =>
    obtain ⟨⟨name, ty⟩, v⟩ := e
    obtain ⟨⟨handle, env₁⟩, hdefine, h⟩ := exists_of_bind_eq_ok h
    obtain ⟨⟨bound', env₂⟩, hrest, h⟩ := exists_of_bind_eq_ok h
    cases h
    have hupdate : Run.update (fun env => env.defineVar name ty v) m =
        (.ok handle, { m with env := env₁ }) := by
      unfold Run.update
      dsimp only
      rw [hdefine]
    have hrest : allocateInPlace entries { m with env := env₁ } =
        (.ok bound', { m with env := env' }) := ih hrest
    show (Run.update _ >>= _) m = _
    rw [Run.bind_of_ok hupdate, Run.bind_of_ok hrest]
    rfl

/-- Names with the handles of consecutive cells. -/
def handlesFrom (first : Nat) (names : List String) : List (String × Handle) :=
  names.mapIdx fun i name => (name, ⟨first + i⟩)

theorem handlesFrom_cons (first : Nat) (name : String) (names : List String) :
    handlesFrom first (name :: names) = (name, ⟨first⟩) :: handlesFrom (first + 1) names := by
  unfold handlesFrom
  rw [List.mapIdx_cons]
  simp only [Nat.add_zero, Nat.add_assoc, Nat.add_comm 1]

/-- Values that their types admit all get their cells. -/
theorem allocate_of_admits {new : List Cell} (hfit : ∀ c ∈ new, c.ty.admits c.value = true)
    (hnames : (new.map Cell.name).Nodup) (env : Environment) :
    ∃ env', allocate env (new.map Cell.entry) =
        .ok (handlesFrom env.cells.length (new.map Cell.name), env') ∧ env.Gains new env' := by
  induction new generalizing env with
  | nil => exact ⟨env, rfl, .refl env⟩
  | cons c new ih =>
    rw [List.map_cons, List.nodup_cons] at hnames
    obtain ⟨env', hallocate, hgains⟩ :=
      ih (fun d hd => hfit d (List.mem_cons_of_mem c hd)) hnames.2 (env.addVariable c)
    have hdefine := Environment.defineVar_of_admits (hfit c List.mem_cons_self) env
    have hlength : (env.addVariable c).cells.length = env.cells.length + 1 := List.length_append
    refine ⟨env', ?_, hgains.cons hnames.1⟩
    show (env.defineVar c.name c.ty c.value >>= _) = _
    rw [hdefine]
    show (allocate (env.addVariable c) (new.map Cell.entry) >>= _) = _
    rw [hallocate, hlength, List.map_cons, handlesFrom_cons]
    rfl

/-! ### The cells of an activation -/

/-- The cell of the parameter in place `i`: the argument there, and for the marker the list of all
arguments from there on. -/
def cellFor (actuals : List Value) (i : Nat) (formal : Atom) : Cell :=
  if formal.name = variadicMarker then
    ⟨formal.name, .sliceOf formal.ty, .list (actuals.drop i)⟩
  else ⟨formal.name, formal.ty, actuals.getD i .nil⟩

theorem name_cellFor (actuals : List Value) (i : Nat) (formal : Atom) :
    (cellFor actuals i formal).name = formal.name := by
  unfold cellFor
  split <;> rfl

/-- A fixed parameter gets the argument in its place. -/
theorem cellFor_of_ne_marker {actuals : List Value} {i : Nat} {formal : Atom}
    (hname : formal.name ≠ variadicMarker) (hi : i < actuals.length) :
    cellFor actuals i formal = ⟨formal.name, formal.ty, actuals[i]⟩ := by
  unfold cellFor
  rw [if_neg hname, List.getD_eq_getElem?_getD, List.getElem?_eq_getElem hi, Option.getD_some]

/-- The marker gets the arguments from its place on. -/
theorem cellFor_marker (actuals : List Value) (i : Nat) (ty : Ty) :
    cellFor actuals i ⟨variadicMarker, ty⟩ =
      ⟨variadicMarker, .sliceOf ty, .list (actuals.drop i)⟩ := if_pos rfl

theorem names_cells (actuals : List Value) (formals : List Atom) :
    (formals.mapIdx (cellFor actuals)).map Cell.name = formals.map Atom.name := by
  apply List.ext_getElem
  · simp
  · intro i h h'
    rw [List.getElem_map, List.getElem_mapIdx, name_cellFor, List.getElem_map]

/-- A list fits the slice of a type if each of its items fits the type. -/
theorem admits_sliceOf (ty : Ty) (vs : List Value) :
    (Ty.sliceOf ty).admits (.list vs) = vs.all ty.admits := rfl

section
variable {formals : List Atom} {actuals : List Value}
  (hmarker : ∀ f ∈ formals, f.name ≠ variadicMarker) (hlen : formals.length ≤ actuals.length)
include hmarker hlen

/-- The variables of fixed parameters are made from the arguments in their places. -/
theorem entries_fixed :
    (formals.map fun f => (f.name, f.ty)).zip (actuals.take formals.length) =
      (formals.mapIdx (cellFor actuals)).map Cell.entry := by
  apply List.ext_getElem
  · simp [Nat.min_eq_left hlen]
  · intro i h h'
    have hi : i < formals.length := by simpa using h'
    have hi' : i < actuals.length := Nat.lt_of_lt_of_le hi hlen
    have hcell := cellFor_of_ne_marker (hmarker _ (List.getElem_mem hi)) hi'
    rw [List.getElem_zip, List.getElem_map, List.getElem_take, List.getElem_map,
      List.getElem_mapIdx, hcell]
    rfl

theorem admits_fixed (hfit : misfit? formals actuals = none) :
    ∀ c ∈ formals.mapIdx (cellFor actuals), c.ty.admits c.value = true := by
  intro c hc
  obtain ⟨i, hi, rfl⟩ := List.mem_mapIdx.1 hc
  have hi' : i < actuals.length := Nat.lt_of_lt_of_le hi hlen
  rw [cellFor_of_ne_marker (hmarker _ (List.getElem_mem hi)) hi']
  have hzip : i < (formals.zip actuals).length := by
    rw [List.length_zip]
    exact Nat.lt_min.2 ⟨hi, hi'⟩
  have hnot := List.find?_eq_none.1 hfit _ (List.getElem_mem hzip)
  rw [List.getElem_zip] at hnot
  simpa using hnot

end

/-! ### Signatures -/

/-- Distinct names stay distinct with a new one behind them. -/
theorem nodup_names_concat {seen : List Atom} {f : Atom} (hseen : (seen.map Atom.name).Nodup)
    (hnew : ¬ seen.any (fun g => decide (g.name = f.name)) = true) :
    ((seen ++ [f]).map Atom.name).Nodup := by
  rw [List.map_append]
  refine List.nodup_append.2 ⟨hseen, List.pairwise_singleton _ _, ?_⟩
  intro name hname other hother heq
  obtain ⟨g, hg, rfl⟩ := List.mem_map.1 hname
  rw [List.mem_singleton.1 hother] at heq
  exact hnew (List.any_eq_true.2 ⟨g, hg, decide_eq_true heq⟩)

/-- The formals of a signature have names that differ, and the marker, if it is there, is the last
one. -/
theorem extend_eq_ok {seen fs : List Atom} {s : Signature} (h : extend seen fs = .ok s)
    (hseen : (seen.map Atom.name).Nodup) (hmarker : ∀ f ∈ seen, f.name ≠ variadicMarker) :
    ((seen ++ fs).map Atom.name).Nodup ∧ ∀ f ∈ s.fixed, f.name ≠ variadicMarker := by
  induction fs generalizing seen with
  | nil =>
    cases h
    rw [List.append_nil]
    exact ⟨hseen, hmarker⟩
  | cons f fs ih =>
    unfold extend at h
    split at h
    · cases h
    · next hany =>
      have hnodup := nodup_names_concat hseen hany
      split at h
      · next hname =>
        split at h
        · next hempty =>
          cases h
          rw [List.isEmpty_iff.1 hempty]
          exact ⟨hnodup, hmarker⟩
        · cases h
      · next hname =>
        have hmarker' : ∀ g ∈ seen ++ [f], g.name ≠ variadicMarker := by
          intro g hg
          rcases List.mem_append.1 hg with hg | hg
          · exact hmarker g hg
          · rw [List.mem_singleton.1 hg]
            exact hname
        have hrest := ih h hnodup hmarker'
        rwa [List.append_assoc] at hrest

theorem ofFormals_eq_ok {formals : List Atom} {s : Signature} (h : ofFormals formals = .ok s) :
    s.formals = formals ∧ (formals.map Atom.name).Nodup ∧
      ∀ f ∈ s.fixed, f.name ≠ variadicMarker := by
  have hformals : s.formals = [] ++ formals := formals_of_extend h
  exact ⟨hformals, extend_eq_ok h .nil nofun⟩

/-! ### The matched values -/

section
variable {s : Signature} {actuals values : List Value}

/-- Arguments that pass fit one by one, and there are as many as are asked for. -/
theorem verdict_eq_ok (h : s.verdict actuals = .ok values) :
    misfit? s.fixed actuals = none ∧ s.fixed.length ≤ actuals.length ∧
      (s.rest = none ∧ values = actuals.take s.fixed.length ∨
        ∃ ty, s.rest = some ty ∧ (actuals.drop s.fixed.length).all ty.admits = true ∧
          values = actuals.take s.fixed.length ++ [.list (actuals.drop s.fixed.length)]) := by
  unfold verdict at h
  split at h
  · cases h
  · next hfit =>
    split at h
    · next hcount =>
      have hlen := length_fixed_le_of_accepts hcount
      refine ⟨hfit, hlen, ?_⟩
      split at h
      · next hrest =>
        cases h
        have hlength : actuals.length = s.fixed.length := by
          simpa [arity, hrest, Arity.accepts] using hcount
        rw [← hlength, List.take_length]
        exact .inl ⟨hrest, rfl⟩
      · next ty hrest =>
        split at h
        · cases h
        · next hall =>
          cases h
          refine .inr ⟨ty, hrest, ?_, rfl⟩
          simpa using hall
    · cases h

/-- The variables of an activation, as they are made, are the cells of the parameters, and each
holds what its type admits. -/
theorem entries_of_verdict (hmarker : ∀ f ∈ s.fixed, f.name ≠ variadicMarker)
    (h : s.verdict actuals = .ok values) :
    s.cellTypes.zip values = (s.formals.mapIdx (cellFor actuals)).map Cell.entry ∧
      ∀ c ∈ s.formals.mapIdx (cellFor actuals), c.ty.admits c.value = true := by
  obtain ⟨hfit, hlen, hvalues⟩ := verdict_eq_ok h
  have hentries := entries_fixed hmarker hlen
  have hadmits := admits_fixed hmarker hlen hfit
  rcases hvalues with ⟨hrest, rfl⟩ | ⟨ty, hrest, hall, rfl⟩
  · have hformals : s.formals = s.fixed := by
      unfold formals
      rw [hrest]
    have htypes : s.cellTypes = s.fixed.map fun f => (f.name, f.ty) := by
      unfold cellTypes
      rw [hrest]
      exact List.append_nil _
    rw [hformals, htypes]
    exact ⟨hentries, hadmits⟩
  · have hformals : s.formals = s.fixed ++ [⟨variadicMarker, ty⟩] := by
      unfold formals
      rw [hrest]
    have htypes : s.cellTypes =
        (s.fixed.map fun f => (f.name, f.ty)) ++ [(variadicMarker, Ty.sliceOf ty)] := by
      unfold cellTypes
      rw [hrest]
      rfl
    have hcells : s.formals.mapIdx (cellFor actuals) = s.fixed.mapIdx (cellFor actuals) ++
        [⟨variadicMarker, .sliceOf ty, .list (actuals.drop s.fixed.length)⟩] := by
      rw [hformals, List.mapIdx_append, List.mapIdx_cons, Nat.zero_add, cellFor_marker]
      rfl
    rw [hcells, htypes]
    constructor
    · rw [List.zip_append (by simp [Nat.min_eq_left hlen]), hentries, List.map_append]
      rfl
    · intro c hc
      rcases List.mem_append.1 hc with hc | hc
      · exact hadmits c hc
      · rw [List.mem_singleton.1 hc, admits_sliceOf]
        exact hall

end

/-! ### All or nothing -/

/-- Either the check of the arguments fails, and binding them fails with the same error and has
changed nothing; or each parameter gets a new cell, in their order, to which its name is bound in
the innermost frame, and nothing else has changed. -/
theorem bind_all_or_nothing {formals : List Atom} {s : Signature} (hs : ofFormals formals = .ok s)
    (actuals : List Value) (m : Machine) :
    match s.check actuals with
    | .error e => s.bindInPlace actuals m = (.error e, m) ∧ s.bind m.env actuals = .error e
    | .ok () => ∃ env',
        let bound := handlesFrom m.env.cells.length (formals.map Atom.name)
        s.bindInPlace actuals m = (.ok bound, { m with env := env' }) ∧
          s.bind m.env actuals = .ok (bound, env') ∧
          m.env.Gains (formals.mapIdx (cellFor actuals)) env' := by
  obtain ⟨rfl, hnames, hmarker⟩ := ofFormals_eq_ok hs
  have hmatch := matchArguments_eq_verdict s actuals
  unfold check bindInPlace Signature.bind
  cases hv : s.verdict actuals with
  | error e =>
    rw [hmatch, hv]
    exact ⟨rfl, rfl⟩
  | ok values =>
    obtain ⟨hentries, hadmits⟩ := entries_of_verdict hmarker hv
    rw [← names_cells actuals] at hnames
    obtain ⟨env', hallocate, hgains⟩ := allocate_of_admits hadmits hnames m.env
    rw [← hentries, names_cells] at hallocate
    rw [hmatch, hv]
    exact ⟨env', allocateInPlace_of_allocate hallocate, hallocate, hgains⟩

/-- A parameter that shadows a variable of the frame, and further arguments with nil among them. -/
theorem bind_all_or_nothing_variadic :
    let int : Ty := { kind := .int }
    let s : Signature := { fixed := [⟨"a", int⟩], rest := some int.orNil }
    let m : Machine := { env := Environment.empty.addVariable ⟨"a", .any, .bool true⟩ }
    ∃ env', s.bindInPlace [.int 1, .nil, .int 2] m =
        (.ok [("a", ⟨1⟩), ("...", ⟨2⟩)], { m with env := env' }) ∧
      env'.cells = [⟨"a", .any, .bool true⟩, ⟨"a", int, .int 1⟩,
        ⟨"...", .sliceOf int.orNil, .list [.nil, .int 2]⟩] ∧
      env'.innermost.bindings.find? "a" = some (.var ⟨1⟩) := by
  intro int s m
  have hcheck : s.check [.int 1, .nil, .int 2] = .ok () := by
    rw [check, matchArguments_eq_verdict]
    rfl
  have hbind := @bind_all_or_nothing [⟨"a", int⟩, ⟨"...", int.orNil⟩] s rfl
    [.int 1, .nil, .int 2] m
  rw [hcheck] at hbind
  obtain ⟨env', hplace, -, hgains⟩ := hbind
  exact ⟨env', hplace, hgains.cells, hgains.binds 0 _ rfl⟩

end Signature

end HostLisp
