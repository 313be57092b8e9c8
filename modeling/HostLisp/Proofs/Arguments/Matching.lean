import HostLisp.Proofs.Parsing.Outcome
import HostLisp.Signature

/-!
# Matching arguments

A signature matches arguments with a parser that is put together from its parameters, and rewrites
the errors that say at which place the parser gave up.  What comes out is said here without parsers:
the first fixed parameter whose argument does not fit, then the number of arguments, then the first
further argument that does not fit,

    matchArguments_eq_verdict : s.matchArguments actuals = s.verdict actuals
-/

namespace HostLisp.Signature

open Parsing

/-! ### The verdict on arguments -/

/-- The first parameter whose argument its type does not admit, and that argument. -/
def misfit? (formals : List Atom) (actuals : List Value) : Option (Atom × Value) :=
  (formals.zip actuals).find? fun (formal, v) => !formal.ty.admits v

/-- One value for each parameter, or what is wrong with the arguments: a fixed parameter that does
not get what it asks for comes before a wrong number of arguments, and that before a further
argument that does not fit. -/
def verdict (s : Signature) (actuals : List Value) : Except Error (List Value) :=
  match misfit? s.fixed actuals with
  | some (formal, v) => .error (.typeSign formal.name formal.ty v)
  | none =>
    if s.arity.accepts actuals.length then
      match s.rest with
      | none => .ok actuals
      | some ty =>
        match (actuals.drop s.fixed.length).find? fun v => !ty.admits v with
        | some v => .error (.typeSign variadicMarker ty v)
        | none => .ok (actuals.take s.fixed.length ++ [.list (actuals.drop s.fixed.length)])
    else .error (.arity s.arity actuals.length none)

theorem misfit?_cons (formal : Atom) (formals : List Atom) (v : Value) (actuals : List Value) :
    misfit? (formal :: formals) (v :: actuals) =
      if formal.ty.admits v then misfit? formals actuals else some (formal, v) := by
  cases hv : formal.ty.admits v <;> simp [misfit?, hv]

/-! ### The end of the arguments -/

theorem eof_nil (n : Nat) : (eof : ArgumentParser Unit) ⟨n, []⟩ = .ok ((), ⟨n, []⟩) := rfl

theorem eof_cons (n : Nat) (v : Value) (vs : List Value) :
    (eof : ArgumentParser Unit) ⟨n, v :: vs⟩ =
      .error (.backtrack (.arity (.exactly n) (n + (v :: vs).length) none)) := rfl

/-! ### One argument -/

section
variable (formal : Atom) (n : Nat)

theorem one_nil : one formal ⟨n, []⟩ = .error (.backtrack (Error.missingArgument ⟨n, []⟩)) := rfl

theorem one_of_admits {v : Value} (h : formal.ty.admits v = true) (vs : List Value) :
    one formal ⟨n, v :: vs⟩ = .ok (v, ⟨n + 1, vs⟩) := by
  have hcheck : checkFormal formal.name formal.ty v = .ok () := checkFormal_eq_ok_iff.2 h
  simp only [one, satisfyMap, next?_cursor_cons, hcheck, Except.map]

theorem one_of_not_admits {v : Value} (h : formal.ty.admits v = false) (vs : List Value) :
    one formal ⟨n, v :: vs⟩ = .error (.backtrack (.typeSign formal.name formal.ty v)) := by
  have hcheck : checkFormal formal.name formal.ty v =
      .error (.typeSign formal.name formal.ty v) := by
    simp [checkFormal, h]
  simp only [one, satisfyMap, next?_cursor_cons, hcheck, Except.map]

end

/-! ### Fixed parameters -/

section
variable {formals : List Atom} (ps : List (ArgumentParser Value)) (n : Nat) {actuals : List Value}

/-- Parameters whose arguments fit hand over to the parsers behind them. -/
theorem inOrder_of_fit (hfit : misfit? formals actuals = none)
    (hlen : formals.length ≤ actuals.length) :
    inOrder (formals.map one ++ ps) ⟨n, actuals⟩ =
      (inOrder ps ⟨n + formals.length, actuals.drop formals.length⟩).map fun (values, c) =>
        (actuals.take formals.length ++ values, c) := by
  induction formals generalizing n actuals with
  | nil =>
    show inOrder ps ⟨n, actuals⟩ = (inOrder ps ⟨n, actuals⟩).map id
    rw [Except.map_id, id]
  | cons formal formals ih =>
    obtain _ | ⟨v, vs⟩ := actuals
    · cases hlen
    · rw [misfit?_cons] at hfit
      split at hfit
      · next hv =>
        have hrest := ih (n + 1) hfit (Nat.le_of_succ_le_succ hlen)
        rw [Nat.add_right_comm] at hrest
        rw [List.map_cons, List.cons_append, inOrder, bind_of_ok (one_of_admits formal n hv vs),
          bind_apply, hrest]
        show _ = (inOrder ps ⟨n + formals.length + 1, vs.drop formals.length⟩).map _
        cases inOrder ps ⟨n + formals.length + 1, vs.drop formals.length⟩ <;> rfl
      · cases hfit

/-- The first argument that does not fit ends it, wherever the arguments end. -/
theorem inOrder_of_misfit {formal : Atom} {v : Value}
    (hmisfit : misfit? formals actuals = some (formal, v)) :
    inOrder (formals.map one ++ ps) ⟨n, actuals⟩ =
      .error (.backtrack (.typeSign formal.name formal.ty v)) := by
  induction formals generalizing n actuals with
  | nil => cases hmisfit
  | cons formal' formals ih =>
    obtain _ | ⟨v', vs⟩ := actuals
    · cases hmisfit
    · rw [misfit?_cons] at hmisfit
      split at hmisfit
      · next hv =>
        rw [List.map_cons, List.cons_append, inOrder, bind_of_ok (one_of_admits formal' n hv vs),
          bind_of_error (ih (n + 1) hmisfit)]
      · next hv =>
        cases hmisfit
        rw [List.map_cons, List.cons_append, inOrder,
          bind_of_error (one_of_not_admits formal n (Bool.eq_false_iff.2 hv) vs)]

/-- Arguments that all fit but are too few: the parameter behind the last one asks for another. -/
theorem inOrder_of_missing (hfit : misfit? formals actuals = none)
    (hlen : actuals.length < formals.length) :
    ∃ expected got, inOrder (formals.map one ++ ps) ⟨n, actuals⟩ =
      .error (.backtrack (.arity expected got none)) := by
  induction formals generalizing n actuals with
  | nil => cases hlen
  | cons formal formals ih =>
    obtain _ | ⟨v, vs⟩ := actuals
    · exact ⟨_, _, bind_of_error (one_nil formal n)⟩
    · rw [misfit?_cons] at hfit
      split at hfit
      · next hv =>
        obtain ⟨expected, got, h⟩ := ih (n + 1) hfit (Nat.lt_of_succ_lt_succ hlen)
        refine ⟨expected, got, ?_⟩
        rw [List.map_cons, List.cons_append, inOrder, bind_of_ok (one_of_admits formal n hv vs),
          bind_of_error h]
      · cases hfit

end

/-! ### Further arguments -/

section
variable (ty : Ty) (n : Nat) {vs : List Value}

theorem manyTill_of_fit (hfit : (vs.find? fun v => !ty.admits v) = none) :
    manyTill (one ⟨variadicMarker, ty⟩) (eof : ArgumentParser Unit) ⟨n, vs⟩ =
      .ok (vs, ⟨n + vs.length, []⟩) := by
  induction vs generalizing n with
  | nil => rw [manyTill, eof_nil, List.length_nil, Nat.add_zero]
  | cons v vs ih =>
    rw [List.find?_cons] at hfit
    cases hv : ty.admits v with
    | false => simp [hv] at hfit
    | true =>
      have hrest := ih (n + 1) (by simpa [hv] using hfit)
      rw [Nat.add_right_comm] at hrest
      rw [manyTill, eof_cons, one_of_admits ⟨variadicMarker, ty⟩ n hv vs]
      simp [hrest, Nat.add_assoc]

theorem manyTill_of_misfit {v : Value} (hmisfit : (vs.find? fun v => !ty.admits v) = some v) :
    manyTill (one ⟨variadicMarker, ty⟩) (eof : ArgumentParser Unit) ⟨n, vs⟩ =
      .error (.backtrack (.typeSign variadicMarker ty v)) := by
  induction vs generalizing n with
  | nil => cases hmisfit
  | cons v' vs ih =>
    rw [List.find?_cons] at hmisfit
    cases hv : ty.admits v' with
    | false =>
      obtain rfl : v' = v := by simpa [hv] using hmisfit
      rw [manyTill, eof_cons, one_of_not_admits ⟨variadicMarker, ty⟩ n hv vs]
    | true =>
      have hrest := ih (n + 1) (by simpa [hv] using hmisfit)
      rw [manyTill, eof_cons, one_of_admits ⟨variadicMarker, ty⟩ n hv vs]
      simp [hrest]

end

/-! ### All arguments -/

section
variable {s : Signature} {actuals : List Value}

/-- The parser of all arguments. -/
def pipeline (s : Signature) : ArgumentParser (List Value) := terminated (inOrder s.validators) eof

theorem matchArguments_of_ok {values : List Value} {c : Cursor Value}
    (h : s.pipeline ⟨0, actuals⟩ = .ok (values, c)) : s.matchArguments actuals = .ok values := by
  unfold pipeline at h
  simp only [matchArguments, Cursor.ofList, h]

/-- A wrong number of arguments is reported with the arity of the signature. -/
theorem matchArguments_of_arity {expected : Arity} {got : Nat}
    (h : s.pipeline ⟨0, actuals⟩ = .error (.backtrack (.arity expected got none))) :
    s.matchArguments actuals = .error (.arity s.arity actuals.length none) := by
  unfold pipeline at h
  simp only [matchArguments, Cursor.ofList, h, Fail.error]

theorem matchArguments_of_typeSign {name : String} {ty : Ty} {v : Value}
    (h : s.pipeline ⟨0, actuals⟩ = .error (.backtrack (.typeSign name ty v))) :
    s.matchArguments actuals = .error (.typeSign name ty v) := by
  unfold pipeline at h
  simp only [matchArguments, Cursor.ofList, h, Fail.error]

/-- Behind the fixed parameters the pipeline goes on with what is left. -/
theorem pipeline_of_fit (hfit : misfit? s.fixed actuals = none)
    (hlen : s.fixed.length ≤ actuals.length) :
    s.pipeline ⟨0, actuals⟩ =
      terminated
        ((actuals.take s.fixed.length ++ ·) <$> inOrder (s.rest.map further).toList) eof
        ⟨s.fixed.length, actuals.drop s.fixed.length⟩ := by
  have hfixed := inOrder_of_fit (s.rest.map further).toList 0 hfit hlen
  rw [Nat.zero_add] at hfixed
  unfold pipeline terminated validators
  rw [bind_apply, bind_apply, hfixed, map_apply]

theorem matchArguments_fixed (hrest : s.rest = none) (hfit : misfit? s.fixed actuals = none)
    (hlen : s.fixed.length ≤ actuals.length) :
    s.matchArguments actuals =
      if actuals.length = s.fixed.length then .ok actuals
      else .error (.arity s.arity actuals.length none) := by
  have hpipe := pipeline_of_fit hfit hlen
  have hvalues : ((actuals.take s.fixed.length ++ ·) <$> inOrder (s.rest.map further).toList)
      ⟨s.fixed.length, actuals.drop s.fixed.length⟩ =
      .ok (actuals.take s.fixed.length, ⟨s.fixed.length, actuals.drop s.fixed.length⟩) := by
    rw [hrest, map_apply]
    simp [inOrder, Except.map]
  split
  -- The arguments end with the last fixed one.
  · next heq =>
    rw [← heq, List.take_length, List.drop_length] at hvalues hpipe
    exact matchArguments_of_ok (hpipe.trans (terminated_of_ok hvalues (eof_nil _)))
  -- Some are left, and where the end is expected the next one is in the way.
  · next hne =>
    have hsome : actuals.drop s.fixed.length ≠ [] := by
      rw [Ne, List.drop_eq_nil_iff]
      omega
    obtain ⟨v, vs, hvs⟩ := List.exists_cons_of_ne_nil hsome
    rw [hvs] at hvalues hpipe
    have hleft := terminated_of_right_error hvalues (eof_cons s.fixed.length v vs)
    exact matchArguments_of_arity (hpipe.trans hleft)

theorem matchArguments_further {ty : Ty} (hrest : s.rest = some ty)
    (hfit : misfit? s.fixed actuals = none) (hlen : s.fixed.length ≤ actuals.length) :
    s.matchArguments actuals =
      match (actuals.drop s.fixed.length).find? fun v => !ty.admits v with
      | some v => .error (.typeSign variadicMarker ty v)
      | none => .ok (actuals.take s.fixed.length ++ [.list (actuals.drop s.fixed.length)]) := by
  have hpipe := pipeline_of_fit hfit hlen
  rw [hrest] at hpipe
  split
  · next v hv =>
    refine matchArguments_of_typeSign (hpipe.trans (terminated_of_error ?_))
    refine map_of_error _ (bind_of_error (map_of_error _ ?_))
    exact manyTill_of_misfit ty s.fixed.length hv
  · next hv =>
    have hlist := map_of_ok Value.list (manyTill_of_fit ty s.fixed.length hv)
    have hinOrder : inOrder ((some ty).map further).toList
        ⟨s.fixed.length, actuals.drop s.fixed.length⟩ = .ok ([.list (actuals.drop s.fixed.length)],
          ⟨s.fixed.length + (actuals.drop s.fixed.length).length, []⟩) := bind_of_ok hlist
    have hvalues := map_of_ok (actuals.take s.fixed.length ++ ·) hinOrder
    exact matchArguments_of_ok (hpipe.trans (terminated_of_ok hvalues (eof_nil _)))

/-- The arity of a signature accepts no fewer arguments than there are fixed parameters. -/
theorem length_fixed_le_of_accepts (h : s.arity.accepts actuals.length = true) :
    s.fixed.length ≤ actuals.length := by
  unfold arity at h
  split at h
  · exact of_decide_eq_true h
  · exact Nat.le_of_eq (of_decide_eq_true h).symm

theorem matchArguments_eq_verdict (s : Signature) (actuals : List Value) :
    s.matchArguments actuals = s.verdict actuals := by
  unfold verdict
  split
  · next formal v hmisfit =>
    exact matchArguments_of_typeSign (terminated_of_error (inOrder_of_misfit _ 0 hmisfit))
  · next hfit =>
    by_cases hlen : s.fixed.length ≤ actuals.length
    · cases hrest : s.rest with
      | none => simp [matchArguments_fixed hrest hfit hlen, arity, hrest, Arity.accepts]
      | some ty => simp [matchArguments_further hrest hfit hlen, arity, hrest, Arity.accepts, hlen]
    -- The parser counts up to the first one missing; the signature puts its own arity there.
    · obtain ⟨expected, got, hmissing⟩ :=
        inOrder_of_missing (s.rest.map further).toList 0 hfit (Nat.lt_of_not_le hlen)
      rw [if_neg fun hcount => hlen (length_fixed_le_of_accepts hcount)]
      exact matchArguments_of_arity (terminated_of_error hmissing)

end

/-- Matching arguments is the verdict on them, and checking them is the verdict without the
values. -/
theorem matching_eq_verdict (s : Signature) (actuals : List Value) :
    s.matchArguments actuals = s.verdict actuals ∧
      s.check actuals = (s.verdict actuals).map fun _ => () := by
  have h := matchArguments_eq_verdict s actuals
  exact ⟨h, by rw [check, h]⟩

/-- A further argument that does not fit counts only if there are enough arguments, and a fixed one
comes first. -/
example :
    let int : Ty := { kind := .int }
    let s : Signature := { fixed := [⟨"a", int⟩, ⟨"b", .any⟩], rest := some int }
    s.verdict [.int 1] = .error (.arity (.atLeast 2) 1 none) ∧
      s.verdict [.nil, .int 2, .nil] = .error (.typeSign "a" int .nil) ∧
      s.verdict [.int 1, .int 2, .nil] = .error (.typeSign variadicMarker int .nil) := by
  refine ⟨rfl, rfl, rfl⟩

end HostLisp.Signature
