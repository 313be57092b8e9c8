import HostLisp.Proofs.Order.Strict

/-!
# The derived order relations

All order relations are drawn from the strict one and from equality.  Less takes integers for floats
where they face floats, equality does not.  So two values of which neither is less need not be
equal, and then neither of the relations that allow equality holds.
-/

namespace HostLisp

namespace Value

variable {a b : Value}

mutual
/-- Equal values are alike. -/
theorem alike_of_beq (a b : Value) (h : (a == b) = true) : alike a b = true := by
  cases a with
  | int n =>
    cases b with
    | float y => cases h
    | _ => exact h
  | float x =>
    cases b with
    | int n => cases h
    | _ => exact h
  | list as =>
    cases b with
    | list bs => exact alikeItems_of_sameItems as bs h
    | _ => exact h
  | _ => exact h
termination_by structural a
theorem alikeItems_of_sameItems (as bs : List Value) (h : sameItems as bs = true) :
    alikeItems as bs = true := by
  match as, bs with
  | [], [] => rfl
  | [], _ :: _ | _ :: _, [] => cases h
  | a :: as, b :: bs =>
    have h := Bool.and_eq_true_iff.1 h
    exact Bool.and_eq_true_iff.2 ⟨alike_of_beq a b h.1, alikeItems_of_sameItems as bs h.2⟩
termination_by structural as
end

end Value

/-! ### Answers -/

section
variable {a b : Value} {o : Ordering}

/-- What a relation answers on operands that compare. -/
theorem answer_of_order {swapped orEqual : Bool} (h : Value.order false a b = .ok o) :
    Comparison.answer ⟨false, swapped, orEqual⟩ a b =
      .ok (.bool ((orEqual && a == b) || (if swapped then o == .gt else o == .lt))) := by
  -- Operands that are exchanged compare the other way round.
  have hswap := Value.order_swap h
  unfold Comparison.answer
  dsimp only
  rw [Bool.false_and, if_neg Bool.false_ne_true]
  cases orEqual && a == b with
  | true => rfl
  | false =>
    rw [if_neg Bool.false_ne_true]
    cases swapped with
    | true =>
      rw [if_pos rfl, hswap]
      cases o <;> rfl
    | false =>
      rw [if_neg Bool.false_ne_true, h]
      rfl

theorem exists_order_of_answer {r : Bool}
    (h : Comparison.answer ⟨false, false, false⟩ a b = .ok (.bool r)) :
    ∃ o, Value.order false a b = .ok o ∧ (o == .lt) = r := by
  cases ho : Value.order false a b with
  | error e =>
    unfold Comparison.answer at h
    rw [ho] at h
    cases h
  | ok o =>
    rw [answer_of_order ho] at h
    cases h
    exact ⟨o, rfl, rfl⟩

theorem alike_eq (h : Value.order false a b = .ok o) (ha : a.NumbersOnly) (hb : b.NumbersOnly) :
    Value.alike a b = (o == .eq) := by
  rw [Bool.eq_iff_iff, beq_iff_eq]
  exact (Value.compares_of_order a b h).alike_iff ha hb

/-- What a relation that allows equality answers on operands of which only alike ones are equal. -/
theorem orEqual_eq (heq : (a == b) = true → o = .eq) (swapped : Bool) :
    ((true && a == b) || (if swapped then o == .gt else o == .lt)) =
      (!(if swapped then o == .lt else o == .gt) && (!(o == .eq) || a == b)) := by
  cases hbeq : a == b with
  | true =>
    obtain rfl := heq hbeq
    cases swapped <;> rfl
  | false => cases o <;> cases swapped <;> rfl

end

variable {host : Host} {level : Level} {m : Machine}

theorem comparison_outcome {lenient : Bool} (h : level.ComparesPlainly m.env lenient)
    (swapped orEqual : Bool) (a b : Value) :
    (runPrimitive host level (.comparison ⟨lenient, swapped, orEqual⟩) [a, b] m).1 =
      Comparison.answer ⟨lenient, swapped, orEqual⟩ a b := by
  obtain ⟨d, hd⟩ := yields_comparison h swapped orEqual a b m rfl
  rw [hd]

/-- The derived relations follow from the strict one, apart from values that are alike without being
equal: neither of them is less than the other, and neither relation that allows equality holds. -/
theorem comparison_derived (h : level.ComparesPlainly m.env false) {a b : Value}
    (ha : a.NumbersOnly) (hb : b.NumbersOnly) {r s : Bool} :
    let answer (swapped orEqual : Bool) (x y : Value) :=
      (runPrimitive host level (.comparison ⟨false, swapped, orEqual⟩) [x, y] m).1
    answer false false a b = .ok (.bool r) → answer false false b a = .ok (.bool s) →
    answer true false a b = .ok (.bool s) ∧
      answer false true a b = .ok (.bool (!s && (!Value.alike a b || a == b))) ∧
      answer true true a b = .ok (.bool (!r && (!Value.alike a b || a == b))) ∧
      (Value.alike a b = true ↔ r = false ∧ s = false) ∧
      (answer false true a b = .ok (.bool true) ∨ answer true true a b = .ok (.bool true) ↔
        (Value.alike a b = true → (a == b) = true)) := by
  intro answer hless hgreater
  have hanswer : ∀ swapped orEqual x y, answer swapped orEqual x y =
      Comparison.answer ⟨false, swapped, orEqual⟩ x y := comparison_outcome h
  rw [hanswer] at hless hgreater
  obtain ⟨o, ho, rfl⟩ := exists_order_of_answer hless
  obtain ⟨o', ho', rfl⟩ := exists_order_of_answer hgreater
  cases (Value.order_swap ho).symm.trans ho'
  have halike := alike_eq ho ha hb
  -- Equal operands tie, but a tie need not be of equal ones.
  have heq : (a == b) = true → o = .eq := by
    intro heq
    have h := Value.alike_of_beq a b heq
    rwa [halike, beq_iff_eq] at h
  have hgt : (o.swap == .lt) = (o == .gt) := by cases o <;> rfl
  have hle : answer false true a b = .ok (.bool (!(o == .gt) && (!(o == .eq) || a == b))) := by
    rw [hanswer, answer_of_order ho]
    exact congrArg (fun c => Except.ok (Value.bool c)) (orEqual_eq heq false)
  have hge : answer true true a b = .ok (.bool (!(o == .lt) && (!(o == .eq) || a == b))) := by
    rw [hanswer, answer_of_order ho]
    exact congrArg (fun c => Except.ok (Value.bool c)) (orEqual_eq heq true)
  rw [hgt, halike]
  refine ⟨?_, hle, hge, ?_, ?_⟩
  · rw [hanswer, answer_of_order ho]
    rfl
  · cases o <;> simp
  · rw [hle, hge]
    cases o <;> simp

/-- One item apart, `(1 2)` and `(1.0 2.5)` are alike; the other item decides. -/
theorem comparison_derived_lists :
    (runPrimitive Host.Sample.host (.top Host.Sample.host) (.comparison ⟨false, false, true⟩)
      [.list [.int 1, .int 2], .list [.float 1.0, .float 2.5]] (.global default)).1 =
        .ok (.bool true) := by
  have h : (Level.top Host.Sample.host).ComparesPlainly (Machine.global default).env false :=
    comparesPlainly_global (by decide) false
  have ha : (Value.list [.int 1, .int 2]).NumbersOnly := ⟨trivial, trivial, trivial⟩
  have hb : (Value.list [.float 1.0, .float 2.5]).NumbersOnly := ⟨rfl, rfl, trivial⟩
  have hless : Comparison.answer ⟨false, false, false⟩ (.list [.int 1, .int 2])
      (.list [.float 1.0, .float 2.5]) = .ok (.bool true) := rfl
  have hgreater : Comparison.answer ⟨false, false, false⟩ (.list [.float 1.0, .float 2.5])
      (.list [.int 1, .int 2]) = .ok (.bool false) := rfl
  exact (comparison_derived h ha hb ((comparison_outcome h _ _ _ _).trans hless)
    ((comparison_outcome h _ _ _ _).trans hgreater)).2.1

/-- Neither of `1` and `1.0` is less than the other, and neither `(<= 1 1.0)` nor `(>= 1 1.0)` is
true. -/
theorem comparison_derived_alike :
    let answer (swapped orEqual : Bool) (x y : Value) :=
      (runPrimitive Host.Sample.host (.top Host.Sample.host)
        (.comparison ⟨false, swapped, orEqual⟩) [x, y] (.global default)).1
    answer false false (.int 1) (.float 1.0) = .ok (.bool false) ∧
      answer false false (.float 1.0) (.int 1) = .ok (.bool false) ∧
      answer false true (.int 1) (.float 1.0) = .ok (.bool false) ∧
      answer true true (.int 1) (.float 1.0) = .ok (.bool false) := by
  intro answer
  have h : (Level.top Host.Sample.host).ComparesPlainly (Machine.global default).env false :=
    comparesPlainly_global (by decide) false
  have hanswer : ∀ swapped orEqual x y, answer swapped orEqual x y =
      Comparison.answer ⟨false, swapped, orEqual⟩ x y := comparison_outcome h
  simp only [hanswer]
  exact ⟨rfl, rfl, rfl, rfl⟩

end HostLisp
