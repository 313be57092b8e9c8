import HostLisp.Eval
import HostLisp.Global
import HostLisp.Host.Sample
import HostLisp.Proofs.Arguments.Matching

/-!
# Typed operations

The descriptor of a parameter admits exactly the values that the parameter converts, however often
it is made optional,

    admits_iff : p.descriptor.admits v = true ↔ ∃ a, p.convert v = .ok a

So arguments that have passed the signature of an operation are all converted, each for the
parameter in its place, and the operation is performed on them.  A call that does not get that far
fails with the error of the signature; a conversion never fails in a call.
-/

namespace HostLisp

/-! ### Descriptors and conversions -/

theorem Ty.admits_orNil (ty : Ty) (v : Value) :
    ty.orNil.admits v = (v.isNil || ty.admits v) := by
  obtain ⟨kind, optional⟩ := ty
  cases v <;> simp [Ty.orNil, Ty.admits, Value.isNil]

namespace Parameter

theorem convert_optional_nil (p : Parameter) : (optional p).convert .nil = .ok none := by
  simp [convert]

theorem convert_optional (p : Parameter) {v : Value} (hv : v.isNil = false) :
    (optional p).convert v = (p.convert v).map some := by
  cases v with
  | nil => cases hv
  | _ => simp [convert]

theorem convert_value (v : Value) : value.convert v = .ok v := by
  simp [convert]

theorem admits_value (v : Value) : value.descriptor.admits v = true := by
  cases v <;> simp [descriptor, Ty.admits, Kind.admits]

theorem admits_iff (p : Parameter) (v : Value) :
    p.descriptor.admits v = true ↔ ∃ a, p.convert v = .ok a := by
  induction p with
  | optional p ih =>
    rw [descriptor, Ty.admits_orNil, Bool.or_eq_true]
    cases hv : v.isNil with
    | true =>
      obtain rfl : v = .nil := by cases v <;> first | rfl | cases hv
      exact iff_of_true (.inl rfl) ⟨none, convert_optional_nil p⟩
    | false =>
      rw [convert_optional p hv, ih]
      cases p.convert v <;> simp [Except.map]
  | value => exact iff_of_true (admits_value v) ⟨v, convert_value v⟩
  | _ => cases v <;> simp [descriptor, Ty.admits, Kind.admits, convert]

/-! ### Rows of arguments -/

/-- Each argument is converted for the parameter in its place; there are as many of both. -/
def Converts : (ps : List Parameter) → List Value → Arguments ps → Prop
  | [], [], () => True
  | p :: ps, v :: vs, (a, as) => p.convert v = .ok a ∧ Converts ps vs as
  | _, _, _ => False

theorem exists_converts {ps : List Parameter} {formals : List Atom} {vs : List Value}
    (hformals : formals.map Atom.ty = ps.map descriptor) (hlen : vs.length = ps.length)
    (hfit : Signature.misfit? formals vs = none) :
    ∃ as, convertAll ps vs = .ok as ∧ Converts ps vs as := by
  induction ps generalizing formals vs with
  | nil =>
    obtain rfl := List.length_eq_zero_iff.1 hlen
    exact ⟨(), rfl, trivial⟩
  | cons p ps ih =>
    obtain ⟨formal, formals, rfl⟩ : ∃ formal formals', formals = formal :: formals' := by
      cases formals with
      | nil => cases hformals
      | cons formal formals => exact ⟨formal, formals, rfl⟩
    obtain ⟨v, vs, rfl⟩ := List.exists_cons_of_length_eq_add_one hlen
    obtain ⟨hformal, hformals⟩ := List.cons.inj hformals
    rw [Signature.misfit?_cons] at hfit
    split at hfit
    · next hadmits =>
      rw [hformal] at hadmits
      obtain ⟨a, ha⟩ := (admits_iff p v).1 hadmits
      obtain ⟨as, has, hconverts⟩ := ih hformals (Nat.succ.inj hlen) hfit
      refine ⟨(a, as), ?_, ha, hconverts⟩
      show (do
        let a ← p.convert v
        let as ← convertAll ps vs
        return (a, as)) = _
      rw [ha, has]
      rfl
    · cases hfit

end Parameter

/-! ### Calls -/

/-- The error says that the arguments of a call do not fit its parameters. -/
def Error.isOfArguments : Error → Bool
  | .typeSign .. | .arity .. => true
  | _ => false

theorem Signature.isOfArguments_of_verdict {s : Signature} {actuals : List Value} {e : Error}
    (h : s.verdict actuals = .error e) : e.isOfArguments = true := by
  unfold verdict at h
  split at h
  · cases h
    rfl
  split at h
  · split at h
    · cases h
    split at h <;> cases h
    rfl
  · cases h
    rfl

theorem Signature.map_ty_positional (tys : List Ty) :
    (Signature.positional tys).fixed.map Atom.ty = tys := by
  refine List.ext_getElem (by simp [positional]) fun i hi htys => ?_
  simp [positional]

namespace Operation

/-- What a call reports of what the host function came to. -/
def report : Except String Value → Except Error Value
  | .ok v => .ok v
  | .error message => .error (.ofFailure (.host message))

section
variable {actuals : List Value}

/-- Arguments that pass the signature are the values it hands on: as many as there are types, and
each fits the one in its place. -/
theorem matchArguments_of_check {tys : List Ty}
    (hcheck : (Signature.positional tys).check actuals = .ok ()) :
    (Signature.positional tys).matchArguments actuals = .ok actuals ∧
      actuals.length = tys.length ∧
      Signature.misfit? (Signature.positional tys).fixed actuals = none := by
  have hverdict := Signature.matchArguments_eq_verdict (Signature.positional tys) actuals
  have hlength : (Signature.positional tys).fixed.length = tys.length := by
    simp [Signature.positional]
  rw [Signature.check, hverdict] at hcheck
  rw [hverdict]
  unfold Signature.verdict at hcheck ⊢
  split at hcheck
  · cases hcheck
  · next hfit =>
    split at hcheck
    · next haccepts =>
      have hcount : actuals.length = (Signature.positional tys).fixed.length :=
        of_decide_eq_true haccepts
      exact ⟨if_pos haccepts, hcount.trans hlength, hfit⟩
    · cases hcheck

theorem matchArguments_of_check_error {s : Signature} {e : Error}
    (hcheck : s.check actuals = .error e) : s.matchArguments actuals = .error e := by
  rw [Signature.check] at hcheck
  cases hmatch : s.matchArguments actuals with
  | ok vs => simp [hmatch, Except.map] at hcheck
  | error e' => simpa [hmatch, Except.map] using hcheck

variable {op : Operation}

theorem call_of_converted {vs : List Value} {as : Parameter.Arguments op.parameters}
    (hmatch : op.signature.matchArguments actuals = .ok vs)
    (has : Parameter.convertAll op.parameters vs = .ok as) :
    op.call actuals = report (op.perform as) := by
  simp only [call, hmatch, has, bind, Except.bind]
  cases op.perform as <;> rfl

theorem call_of_mismatch {e : Error} (hmatch : op.signature.matchArguments actuals = .error e) :
    op.call actuals = .error e := by
  simp only [call, hmatch, bind, Except.bind]

end

/-- Whatever a host calls it, and wherever it is called with expressions that have these values, the
operation comes to this outcome and changes nothing more. -/
def Answers (op : Operation) (actuals : List Value) (outcome : Except Error Value) : Prop :=
  ∀ (host : Host) (level : Level) (id key : String), host.operation key = op →
    ∀ (exprs : List Value) (m m' : Machine), evalAll level.eval exprs m = (.ok actuals, m') →
      (Native.mk id (.operation key)).call host level exprs m = (outcome, m')

theorem answers_call (op : Operation) (actuals : List Value) :
    op.Answers actuals (op.call actuals) := by
  rintro host level id key rfl exprs m m' hexprs
  exact Run.bind_of_ok hexprs

/-- A descriptor admits what its parameter converts.  So if the arguments pass the signature, the
host function, whichever it is, gets them converted and in their order; and if they do not, the
error of the signature is the outcome, whatever the host function would have done. -/
theorem called_iff_check :
    (∀ (p : Parameter) (v : Value),
      p.descriptor.admits v = true ↔ ∃ a, p.convert v = .ok a) ∧
    ∀ (ps : List Parameter) (actuals : List Value),
      match (Signature.positional (ps.map Parameter.descriptor)).check actuals with
      | .ok () => ∃ as, Parameter.Converts ps actuals as ∧
          ∀ perform, (Operation.mk ps perform).Answers actuals (report (perform as))
      | .error e => e.isOfArguments = true ∧
          ∀ perform, (Operation.mk ps perform).Answers actuals (.error e) := by
  refine ⟨Parameter.admits_iff, fun ps actuals => ?_⟩
  split
  · next hcheck =>
    obtain ⟨hmatch, hlen, hfit⟩ := matchArguments_of_check hcheck
    rw [List.length_map] at hlen
    obtain ⟨as, has, hconverts⟩ :=
      Parameter.exists_converts (Signature.map_ty_positional _) hlen hfit
    refine ⟨as, hconverts, fun perform => ?_⟩
    have hcall : (Operation.mk ps perform).call actuals = report (perform as) :=
      call_of_converted hmatch has
    exact hcall ▸ answers_call ⟨ps, perform⟩ actuals
  · next e hcheck =>
    have hmatch := matchArguments_of_check_error hcheck
    have hverdict := (Signature.matchArguments_eq_verdict _ actuals).symm.trans hmatch
    refine ⟨Signature.isOfArguments_of_verdict hverdict, fun perform => ?_⟩
    have hcall : (Operation.mk ps perform).call actuals = .error e := call_of_mismatch hmatch
    exact hcall ▸ answers_call ⟨ps, perform⟩ actuals

/-- An optional parameter between others that is given nil does not shift them, and a third argument
that is no integer is reported by its place. -/
theorem called_iff_check_optional :
    let sum : Native := ⟨"sum", .operation "sum4"⟩
    let call (exprs : List Value) : Except Error Value :=
      (sum.call Host.Sample.host (.top Host.Sample.host) exprs (.global default)).1
    call [.int 1, .nil, .int 20, .int 300] = .ok (.int 321) ∧
      call [.int 1, .nil, .bool true, .int 300] =
        .error (.typeSign "arg3" { kind := .int } (.bool true)) := by
  intro sum call
  have hcall {vs : List Value} {outcome : Except Error Value}
      (hanswers : (Host.Sample.host.operation "sum4").Answers vs outcome)
      (hvs : evalAll (Level.top Host.Sample.host).eval vs (.global default) =
        (.ok vs, { Machine.global default with deepest := 1 })) : call vs = outcome :=
    congrArg Prod.fst (hanswers _ _ "sum" "sum4" rfl vs _ _ hvs)
  have hcalled := called_iff_check.2 (Host.Sample.host.operation "sum4").parameters
  constructor
  · obtain ⟨⟨a, b, c, d, _⟩, ⟨ha, hb, hc, hd, -⟩, hanswers⟩ :=
      hcalled [.int 1, .nil, .int 20, .int 300]
    cases ha
    cases hb
    cases hc
    cases hd
    exact hcall (hanswers (Host.Sample.host.operation "sum4").perform) rfl
  · have hname : "arg" ++ String.ofList (Decimal.digits 3) = "arg3" := by
      rw [Decimal.digits]
      rfl
    have hcheck : (Host.Sample.host.operation "sum4").signature.check
        [.int 1, .nil, .bool true, .int 300] =
          .error (.typeSign ("arg" ++ String.ofList (Decimal.digits 3)) { kind := .int }
            (.bool true)) := rfl
    have hmisfit := hcalled [.int 1, .nil, .bool true, .int 300]
    rw [← Operation.signature, hcheck, hname] at hmisfit
    exact hcall (hmisfit.2 (Host.Sample.host.operation "sum4").perform) rfl

end Operation

end HostLisp
