import HostLisp.Eval
import HostLisp.Host.Sample
import HostLisp.Proofs.Order.Comparison

/-!
# Three-way comparison and failures

An order relation fails as the strict comparison does that it is drawn from.  Three-way comparison
is drawn from two of them, and it looks for an answer first: a failure of the one comparison counts
only if the other one does not hold and the operands are not equal.  The comparator may be a closure,
and closures can fail on one side only.
-/

namespace HostLisp

/-- A value or a form does not fit where it stands. -/
def Error.IsMisfit : Error → Prop
  | .misfit .. => True
  | _ => False

/-- What three-way comparison makes of a failure that is not about the operands themselves. -/
theorem orderOf_of_error {a b : Value} {e : Error} {greater : Except Error Bool}
    (he : ¬ e.IsMisfit) :
    (greater = .ok true → orderOf a b (.error e) greater = .ok (.int 1)) ∧
      (greater ≠ .ok true → (a == b) = true → orderOf a b (.error e) greater = .ok (.int 0)) ∧
      (greater ≠ .ok true → (a == b) = false → orderOf a b (.error e) greater = .error e) := by
  refine ⟨?_, fun hgreater hab => ?_, fun hgreater hab => ?_⟩
  · rintro rfl
    rfl
  · unfold orderOf
    split
    · next h => cases h
    · exact absurd rfl hgreater
    · rw [if_pos hab]
  · unfold orderOf
    split
    · next h => cases h
    · exact absurd rfl hgreater
    · rw [hab, if_neg Bool.false_ne_true]
      cases e with
      | misfit => exact absurd trivial he
      | _ => rfl

section
variable {host : Host} {level : Level} {m m₁ : Machine} {a b : Value} {e : Error}

/-- Both strict comparisons are made, one after the other, whatever comes of the first. -/
theorem order_apply (host : Host) (level : Level) (a b : Value) (m : Machine) :
    (runPrimitive host level .order [a, b] m).1 =
      orderOf a b (lessThan host level false a b m).1
        (lessThan host level false b a (lessThan host level false a b m).2).1 := by
  rw [runPrimitive]
  rfl

/-- An order relation whose comparison fails, fails: equal operands are not compared at all. -/
theorem comparison_of_error {orEqual : Bool} (h : lessThan host level false a b m = (.error e, m₁))
    (hab : (orEqual && a == b) = false) :
    runPrimitive host level (.comparison ⟨false, false, orEqual⟩) [a, b] m = (.error e, m₁) := by
  rw [runPrimitive, compare, if_neg (by simp), hab, if_neg Bool.false_ne_true,
    if_neg Bool.false_ne_true]
  exact Run.bind_of_error h

/-- Where the first comparison fails for a reason of its own, three-way comparison fails with it just
if the second one does not hold and the operands differ.  Otherwise the failure is lost, and the
answer is that of the second comparison or of equality. -/
theorem order_of_error (h : lessThan host level false a b m = (.error e, m₁))
    (he : ¬ e.IsMisfit) :
    ((runPrimitive host level .order [a, b] m).1 = .error e ↔
        (lessThan host level false b a m₁).1 ≠ .ok true ∧ (a == b) = false) ∧
      ((lessThan host level false b a m₁).1 = .ok true →
        (runPrimitive host level .order [a, b] m).1 = .ok (.int 1)) ∧
      ((lessThan host level false b a m₁).1 ≠ .ok true → (a == b) = true →
        (runPrimitive host level .order [a, b] m).1 = .ok (.int 0)) := by
  rw [order_apply, h]
  obtain ⟨hgreater, hequal, hfails⟩ :=
    @orderOf_of_error a b e (lessThan host level false b a m₁).1 he
  refine ⟨⟨fun herror => ?_, fun ⟨hne, hab⟩ => hfails hne hab⟩, hgreater, hequal⟩
  have hne : (lessThan host level false b a m₁).1 ≠ .ok true := by
    intro htrue
    rw [hgreater htrue] at herror
    cases herror
  refine ⟨hne, Bool.eq_false_iff.2 fun hab => ?_⟩
  rw [hequal hne hab] at herror
  cases herror

end

/-! ### A comparator that divides -/

namespace Host.Sample

/-- The body of a comparator that divides 1 by something. -/
def dividingBody (divisor : Value) : Value :=
  .list [.ofName "==", .int 1, .list [.ofName "/", .int 1, divisor]]

/-- The comparator is a closure that divides 1 by something. -/
def dividing (divisor : Value) : Machine where
  env := Environment.empty.defineValue "<" (.lambda 1
    ⟨{ fixed := [{ name := "x" }, { name := "y" }] },
      [("/", .value (.native ⟨"/", .builtin (.primitive (.arithmetic .div))⟩)),
        ("==", .value (.native ⟨"==", .builtin (.primitive (.equality false false))⟩))],
      [dividingBody divisor]⟩)

/-- The division by zero, as it comes out of that comparator. -/
def dividingError (divisor : Value) : Error :=
  .failure .divisionByZero [.evaluating (.list [.ofName "/", .int 1, divisor]),
    .evaluating (dividingBody divisor), .inLambda [dividingBody divisor]]

end Host.Sample

open Host.Sample

/-- If both comparisons fail, the first failure is what is reported. -/
theorem order_of_error_both :
    (runPrimitive Host.Sample.host (.top Host.Sample.host) .order
      [.list [.int 1], .list [.int 2]] (dividing (.int 0))).1 =
        .error (dividingError (.int 0)) := by
  have hless : (lessThan Host.Sample.host (.top Host.Sample.host) false
      (.list [.int 1]) (.list [.int 2]) (dividing (.int 0))).1 =
        .error (dividingError (.int 0)) := by cbv
  have hgreater : (lessThan Host.Sample.host (.top Host.Sample.host) false
      (.list [.int 2]) (.list [.int 1])
      (lessThan Host.Sample.host (.top Host.Sample.host) false
        (.list [.int 1]) (.list [.int 2]) (dividing (.int 0))).2).1 =
        .error (dividingError (.int 0)) := by cbv
  refine (order_of_error (Prod.ext hless rfl) id).1.2 ⟨?_, rfl⟩
  rw [hgreater]
  intro h
  cases h

/-- If the comparison fails one way round only, the failure is lost. -/
theorem order_of_error_one_side :
    (lessThan Host.Sample.host (.top Host.Sample.host) false
        (.list [.int 0]) (.list [.int 1]) (dividing (.ofName "x"))).1 =
          .error (dividingError (.ofName "x")) ∧
      (runPrimitive Host.Sample.host (.top Host.Sample.host) .order
        [.list [.int 0], .list [.int 1]] (dividing (.ofName "x"))).1 = .ok (.int 1) := by
  constructor
  · cbv
  · cbv

end HostLisp
