import HostLisp.Host.Sample
import HostLisp.Eval

/-!
# Exact arithmetic

Integers are computed from the left, as integers without bounds, as long as all that comes out on
the way fits in 64 bits.  The first step whose result does not fit, or that divides by zero, is what
the operation fails with, so nothing ever wraps around:

    perform_of_faultless : no step is at fault → the exact result
    perform_of_fault     : the first step at fault → its failure

With a float among the operands all are widened first, and then nothing can go wrong.  An operand
that is no number is found before anything is computed.
-/

namespace HostLisp.Arithmetic

variable {op : Arithmetic}

/-! ### What the operations stand for -/

/-- The operation on integers without bounds; division rounds toward zero. -/
def exactOp : Arithmetic → Int → Int → Int
  | add => (· + ·)
  | sub => (· - ·)
  | mul => (· * ·)
  | div => Int.tdiv

/-- The operation on floats. -/
def floatOp : Arithmetic → Float → Float → Float
  | add => (· + ·)
  | sub => (· - ·)
  | mul => (· * ·)
  | div => (· / ·)

theorem onInt_eq_exactOp (op : Arithmetic) (a b : Int) : op.onInt a b = op.exactOp a b := by
  cases op <;> rfl

theorem onFloat_eq_floatOp (op : Arithmetic) : op.onFloat = op.floatOp := by
  funext x y
  cases op <;> rfl

/-- What fits in 64 bits. -/
def Fits (n : Int) : Prop := Int64.minValue.toInt ≤ n ∧ n ≤ Int64.maxValue.toInt

instance (n : Int) : Decidable (Fits n) := inferInstanceAs (Decidable (_ ∧ _))

theorem fits_iff {n : Int} :
    Fits n ↔ -9_223_372_036_854_775_808 ≤ n ∧ n < 9_223_372_036_854_775_808 := by
  have hmin : Int64.minValue.toInt = -9_223_372_036_854_775_808 := rfl
  have hmax : Int64.maxValue.toInt = 9_223_372_036_854_775_807 := rfl
  unfold Fits
  rw [hmin, hmax]
  omega

theorem int64?_of_fits {n : Int} (h : Fits n) : int64? n = some (Int64.ofInt n) :=
  if_pos (fits_iff.1 h)

theorem int64?_of_not_fits {n : Int} (h : ¬ Fits n) : int64? n = none :=
  if_neg fun hfits => h (fits_iff.2 hfits)

/-! ### Steps -/

/-- The exact result after the first `k` of some integers. -/
def exactAfter (op : Arithmetic) (first : Int) (ns : List Int64) (k : Nat) : Int :=
  (ns.take k).foldl (fun result n => op.exactOp result n.toInt) first

/-- What is wrong with a step from an exact result. -/
def fault? (op : Arithmetic) (result : Int) (n : Int64) : Option Failure :=
  if op = div ∧ n = 0 then some .divisionByZero
  else if Fits (op.exactOp result n.toInt) then none
  else some (.overflow op)

/-- What is wrong with the step that takes the integer in place `k`, if there is one. -/
def faultAt? (op : Arithmetic) (first : Int) (ns : List Int64) (k : Nat) : Option Failure :=
  ns[k]?.bind (op.fault? (op.exactAfter first ns k))

/-- A step that nothing is wrong with gives the exact result. -/
theorem step_of_faultless {a b : Int64} (h : op.fault? a.toInt b = none) :
    ∃ n, op.step a b = .ok n ∧ n.toInt = op.exactOp a.toInt b.toInt := by
  unfold fault? at h
  split at h
  · cases h
  · next hdiv =>
    split at h
    · next hfits =>
      obtain ⟨hmin, hmax⟩ := fits_iff.1 hfits
      refine ⟨Int64.ofInt (op.exactOp a.toInt b.toInt), ?_, Int64.toInt_ofInt_of_le hmin hmax⟩
      unfold step
      rw [if_neg hdiv, onInt_eq_exactOp, int64?_of_fits hfits]
    · cases h

theorem step_of_fault {a b : Int64} {failure : Failure} (h : op.fault? a.toInt b = some failure) :
    op.step a b = .error (.ofFailure failure) := by
  unfold fault? at h
  unfold step
  split at h
  · next hdiv =>
    cases h
    rw [if_pos hdiv]
  · next hdiv =>
    split at h
    · cases h
    · next hfits =>
      cases h
      rw [if_neg hdiv, onInt_eq_exactOp, int64?_of_not_fits hfits]

/-! ### All steps -/

theorem foldInts_of_faultless {first : Int64} {ns : List Int64}
    (h : ∀ k, op.faultAt? first.toInt ns k = none) :
    ∃ n, op.foldInts first ns = .ok n ∧ n.toInt = op.exactAfter first.toInt ns ns.length := by
  induction ns generalizing first with
  | nil => exact ⟨first, rfl, rfl⟩
  | cons n ns ih =>
    obtain ⟨next, hstep, hnext⟩ := step_of_faultless (h 0)
    -- What is left of the way starts at the exact result so far.
    have hrest : ∀ k, op.faultAt? next.toInt ns k = none := by
      intro k
      rw [hnext]
      exact h (k + 1)
    obtain ⟨result, hfold, hresult⟩ := ih hrest
    refine ⟨result, ?_, ?_⟩
    · rw [foldInts, hstep]
      exact hfold
    · rw [hresult, hnext]
      rfl

theorem foldInts_of_fault {first : Int64} {ns : List Int64} {k : Nat} {failure : Failure}
    (hfault : op.faultAt? first.toInt ns k = some failure)
    (hbefore : ∀ j < k, op.faultAt? first.toInt ns j = none) :
    op.foldInts first ns = .error (.ofFailure failure) := by
  induction ns generalizing first k with
  | nil => cases hfault
  | cons n ns ih =>
    cases k with
    | zero =>
      have hstep : op.step first n = .error (.ofFailure failure) := step_of_fault hfault
      rw [foldInts, hstep]
    | succ k =>
      obtain ⟨next, hstep, hnext⟩ := step_of_faultless (hbefore 0 (Nat.zero_lt_succ k))
      have hfault : op.faultAt? next.toInt ns k = some failure := by
        rw [hnext]
        exact hfault
      have hbefore : ∀ j < k, op.faultAt? next.toInt ns j = none := by
        intro j hj
        rw [hnext]
        exact hbefore (j + 1) (Nat.succ_lt_succ hj)
      rw [foldInts, hstep]
      exact ih hfault hbefore

/-! ### Kinds of operands -/

theorem mapM_asInt?_ints (ns : List Int64) : (ns.map Value.int).mapM Value.asInt? = some ns := by
  induction ns with
  | nil => rfl
  | cons n ns ih =>
    rw [List.map_cons, List.mapM_cons, ih]
    rfl

/-- One operand that is no integer is enough, wherever it stands. -/
theorem mapM_asInt?_eq_none {operands : List Value} {v : Value} (hv : v ∈ operands)
    (h : v.asInt? = none) : operands.mapM Value.asInt? = none := by
  induction operands with
  | nil => cases hv
  | cons u us ih =>
    rw [List.mapM_cons]
    rcases List.mem_cons.1 hv with rfl | hv
    · rw [h]
      rfl
    · rw [ih hv]
      cases u.asInt? <;> rfl

theorem asInt?_eq_none_of_asFloat? {v : Value} (h : v.asFloat? = none) : v.asInt? = none := by
  cases v with
  | int n => cases h
  | _ => rfl

theorem floats_of_mapM {operands : List Value} {xs : List Float}
    (h : operands.mapM Value.asFloat? = some xs) : floats operands = .ok xs := by
  induction operands generalizing xs with
  | nil =>
    cases h
    rfl
  | cons v vs ih =>
    rw [List.mapM_cons] at h
    obtain ⟨x, hx, h⟩ := Option.bind_eq_some_iff.1 h
    obtain ⟨xs', hxs, h⟩ := Option.bind_eq_some_iff.1 h
    cases h
    rw [floats, hx, ih hxs]
    rfl

/-- The first operand that is no number is the one reported. -/
theorem floats_of_find? {operands : List Value} {v : Value}
    (h : (operands.find? fun v => v.asFloat?.isNone) = some v) :
    floats operands = .error (.operand .number v) := by
  induction operands with
  | nil => cases h
  | cons u us ih =>
    rw [List.find?_cons] at h
    rw [floats]
    cases hu : u.asFloat? with
    | none =>
      rw [hu] at h
      cases h
      rfl
    | some x =>
      rw [hu] at h
      rw [ih h]
      rfl

/-! ### Outcomes -/

theorem perform_ints (op : Arithmetic) (n : Int64) (ns : List Int64) :
    op.perform ((n :: ns).map .int) = (op.foldInts n ns).map .int := by
  unfold perform
  rw [mapM_asInt?_ints]

theorem perform_of_faultless {n : Int64} {ns : List Int64}
    (h : ∀ k, op.faultAt? n.toInt ns k = none) :
    ∃ r : Int64, op.perform ((n :: ns).map .int) = .ok (.int r) ∧
      r.toInt = op.exactAfter n.toInt ns ns.length := by
  obtain ⟨r, hfold, hr⟩ := foldInts_of_faultless h
  exact ⟨r, by rw [perform_ints, hfold]; rfl, hr⟩

theorem perform_of_fault {n : Int64} {ns : List Int64} {k : Nat} {failure : Failure}
    (hfault : op.faultAt? n.toInt ns k = some failure)
    (hbefore : ∀ j < k, op.faultAt? n.toInt ns j = none) :
    op.perform ((n :: ns).map .int) = .error (.ofFailure failure) := by
  rw [perform_ints, foldInts_of_fault hfault hbefore]
  rfl

theorem perform_of_float {operands : List Value} {x y : Float} {xs : List Float}
    (hfloat : .float y ∈ operands) (hxs : operands.mapM Value.asFloat? = some (x :: xs)) :
    op.perform operands = .ok (.float (xs.foldl op.floatOp x)) := by
  unfold perform
  rw [mapM_asInt?_eq_none hfloat rfl, floats_of_mapM hxs, ← onFloat_eq_floatOp]
  rfl

theorem perform_of_not_number {operands : List Value} {v : Value}
    (hv : (operands.find? fun v => v.asFloat?.isNone) = some v) :
    op.perform operands = .error (.operand .number v) := by
  have hnot : v.asFloat? = none := by simpa using List.find?_some hv
  unfold perform
  rw [mapM_asInt?_eq_none (List.mem_of_find?_eq_some hv) (asInt?_eq_none_of_asFloat? hnot),
    floats_of_find? hv]
  rfl

/-- Integers give their exact result or the failure of the first step at fault, numbers with a float
among them that of the floats, and the first operand that is no number comes before all that. -/
theorem runPrimitive_exact (host : Host) (level : Level) (op : Arithmetic) (operands : List Value)
    (m : Machine) :
    ∃ outcome, runPrimitive host level (.arithmetic op) operands m = (outcome, m) ∧
      (∀ n ns, operands = (n :: ns).map .int →
        ((∀ k, op.faultAt? n.toInt ns k = none) →
          ∃ r : Int64, outcome = .ok (.int r) ∧ r.toInt = op.exactAfter n.toInt ns ns.length) ∧
        ∀ k failure, op.faultAt? n.toInt ns k = some failure →
          (∀ j < k, op.faultAt? n.toInt ns j = none) → outcome = .error (.ofFailure failure)) ∧
      (∀ x xs, operands.mapM Value.asFloat? = some (x :: xs) → (∃ y, .float y ∈ operands) →
        outcome = .ok (.float (xs.foldl op.floatOp x))) ∧
      (∀ v, (operands.find? fun v => v.asFloat?.isNone) = some v →
        outcome = .error (.operand .number v)) ∧
      (operands = [] →
        (op = add → outcome = .ok (.int 0)) ∧ (op = mul → outcome = .ok (.int 1))) := by
  have hrun : runPrimitive host level (.arithmetic op) operands m = (op.perform operands, m) := by
    rw [runPrimitive]
    rfl
  refine ⟨_, hrun, ?_, ?_, ?_, ?_⟩
  · rintro n ns rfl
    exact ⟨perform_of_faultless, fun k failure => perform_of_fault⟩
  · rintro x xs hxs ⟨y, hy⟩
    exact perform_of_float hy hxs
  · intro v hv
    exact perform_of_not_number hv
  · rintro rfl
    exact ⟨fun h => h ▸ rfl, fun h => h ▸ rfl⟩

/-- The smallest integer divided by one is itself, divided by minus one it does not fit, and the
division by zero behind that is not come to. -/
theorem runPrimitive_exact_smallest :
    (runPrimitive Host.Sample.host (.top Host.Sample.host) (.arithmetic div)
      ([Int64.minValue, 1, -1, 0].map .int) { env := .empty }).1 =
        .error (.ofFailure (.overflow div)) := by
  obtain ⟨outcome, hrun, hints, -⟩ := runPrimitive_exact Host.Sample.host (.top Host.Sample.host)
    div ([Int64.minValue, 1, -1, 0].map .int) { env := .empty }
  rw [hrun]
  refine (hints Int64.minValue [1, -1, 0] rfl).2 1 (.overflow div) rfl fun j hj => ?_
  obtain rfl : j = 0 := Nat.lt_one_iff.1 hj
  rfl

end HostLisp.Arithmetic
