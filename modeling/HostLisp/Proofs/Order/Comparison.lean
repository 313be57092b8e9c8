import HostLisp.Eval.Primitive
import HostLisp.Proofs.Order.Float

/-!
# How two values compare

`Value.order` says how two values compare: lists by their first elements that differ, other values
by the natural order of their kind, and values of different kinds not at all.  Exchanging the two
turns the answer round (`Value.order_swap`).
-/

namespace HostLisp

namespace Value

/-! ### The order of values -/

/-- How two values compare that are not both lists, if they are of one kind. -/
def naturalOrder? (a b : Value) : Option Ordering :=
  (a.naturalLess? b).map fun less =>
    if less then .lt else if b.naturalLess? a = some true then .gt else .eq

mutual
/-- How two values compare; the error names the first two that do not. -/
def order (lenient : Bool) : Value → Value → Except Error Ordering
  | .list as, .list bs => orderItems lenient as bs
  | a, b =>
    match a.naturalOrder? b with
    | some o => .ok o
    | none => .error (.ofMisfit (.notComparable a b))
termination_by structural a => a
/-- How two lists compare: the first difference decides, and a list comes after its beginnings.  A
lenient comparison passes over elements that are nil. -/
def orderItems (lenient : Bool) : List Value → List Value → Except Error Ordering
  | [], [] => .ok .eq
  | [], _ :: _ => .ok .lt
  | _ :: _, [] => .ok .gt
  | a :: as, b :: bs =>
    match if lenient && (a.isNil || b.isNil) then .ok .eq else order lenient a b with
    | .ok .eq => orderItems lenient as bs
    | outcome => outcome
termination_by structural as => as
end

/-- How two elements of lists compare. -/
def elementOrder (lenient : Bool) (a b : Value) : Except Error Ordering :=
  if lenient && (a.isNil || b.isNil) then .ok .eq else order lenient a b

theorem orderItems_cons (lenient : Bool) (a b : Value) (as bs : List Value) :
    orderItems lenient (a :: as) (b :: bs) =
      match elementOrder lenient a b with
      | .ok .eq => orderItems lenient as bs
      | outcome => outcome := rfl

theorem elementOrder_cases {lenient : Bool} {a b : Value} {o : Ordering}
    (h : elementOrder lenient a b = .ok o) :
    (lenient && (a.isNil || b.isNil)) = true ∧ o = .eq ∨ order lenient a b = .ok o := by
  unfold elementOrder at h
  split at h
  · next hnil =>
    cases h
    exact .inl ⟨hnil, rfl⟩
  · exact .inr h

theorem order_of_not_lists {a b : Value} (lenient : Bool)
    (h : ∀ as bs, a = .list as → b = .list bs → False) :
    order lenient a b =
      match a.naturalOrder? b with
      | some o => .ok o
      | none => .error (.ofMisfit (.notComparable a b)) := by
  rw [order]
  exact h

/-! ### Values of one kind -/

/-- Two values that have a natural order. -/
inductive NaturalPair : Value → Value → Prop where
  | ints (m n : Int64) : NaturalPair (.int m) (.int n)
  | floats (x y : Float) : NaturalPair (.float x) (.float y)
  | intFloat (n : Int64) (y : Float) : NaturalPair (.int n) (.float y)
  | floatInt (x : Float) (n : Int64) : NaturalPair (.float x) (.int n)
  | strings (s t : String) : NaturalPair (.string s) (.string t)
  | times (s t : Instant) : NaturalPair (.time s) (.time t)
  | durations (s t : Duration) : NaturalPair (.duration s) (.duration t)

theorem asFloat?_cases {a : Value} {x : Float} (h : a.asFloat? = some x) :
    (∃ n, a = .int n) ∨ ∃ y, a = .float y := by
  unfold asFloat? at h
  split at h
  · exact .inl ⟨_, rfl⟩
  · exact .inr ⟨_, rfl⟩
  · cases h

theorem naturalPair_of_naturalLess? {a b : Value} {less : Bool}
    (h : a.naturalLess? b = some less) : NaturalPair a b := by
  unfold naturalLess? at h
  split at h
  · exact .ints _ _
  · exact .strings _ _
  · exact .times _ _
  · exact .durations _ _
  · -- Two numbers.  Both being integers is excluded by the first case, but that is not known here.
    split at h
    · next x y ha hb =>
      rcases asFloat?_cases ha with ⟨m, rfl⟩ | ⟨x, rfl⟩
      · rcases asFloat?_cases hb with ⟨n, rfl⟩ | ⟨y, rfl⟩
        · exact .ints m n
        · exact .intFloat m y
      · rcases asFloat?_cases hb with ⟨n, rfl⟩ | ⟨y, rfl⟩
        · exact .floatInt x n
        · exact .floats x y
    · cases h

theorem decide_eq_false_of_asymm {p q : Prop} [Decidable p] [Decidable q] (h : p → ¬ q) :
    decide p = true → decide q = false := by
  simpa using h

/-- Both ways round values have a natural order or have none, and not both are less. -/
theorem naturalLess?_swap {a b : Value} {less : Bool} (h : a.naturalLess? b = some less) :
    ∃ greater, b.naturalLess? a = some greater ∧ (less = true → greater = false) := by
  cases naturalPair_of_naturalLess? h with
  | ints m n =>
    cases h
    exact ⟨_, rfl, decide_eq_false_of_asymm Int64.lt_asymm⟩
  | floats x y =>
    cases h
    exact ⟨_, rfl, decide_eq_false_of_asymm Float.not_lt_of_lt⟩
  | intFloat n y =>
    cases h
    exact ⟨_, rfl, decide_eq_false_of_asymm Float.not_lt_of_lt⟩
  | floatInt x n =>
    cases h
    exact ⟨_, rfl, decide_eq_false_of_asymm Float.not_lt_of_lt⟩
  | strings s t =>
    cases h
    exact ⟨_, rfl, decide_eq_false_of_asymm lt_asymm⟩
  | times s t =>
    cases h
    exact ⟨_, rfl, decide_eq_false_of_asymm lt_asymm⟩
  | durations s t =>
    cases h
    exact ⟨_, rfl, decide_eq_false_of_asymm lt_asymm⟩

/-! ### Exchanging the values -/

theorem naturalOrder?_swap {a b : Value} {o : Ordering} (h : a.naturalOrder? b = some o) :
    b.naturalOrder? a = some o.swap := by
  obtain ⟨less, hless, ho⟩ := Option.map_eq_some_iff.1 h
  obtain ⟨greater, hgreater, hasymm⟩ := naturalLess?_swap hless
  rw [hgreater] at ho
  unfold naturalOrder?
  rw [hless, hgreater, ← ho]
  -- The answers are those of both ways round, of which at most one is `true`.
  cases less with
  | true =>
    cases hasymm rfl
    rfl
  | false => cases greater <;> rfl

/-! ### Derivations

Proofs about the order go by the way in which two values compare, step by step through the lists.
-/

/-- `a` and `b` compare as `o` says. -/
inductive Compares (lenient : Bool) : Value → Value → Ordering → Prop where
  | natural {a b : Value} {o : Ordering} (h : a.naturalOrder? b = some o) : Compares lenient a b o
  | bothEnd : Compares lenient (.list []) (.list []) .eq
  | leftEnds (b : Value) (bs : List Value) : Compares lenient (.list []) (.list (b :: bs)) .lt
  | rightEnds (a : Value) (as : List Value) : Compares lenient (.list (a :: as)) (.list []) .gt
  | passed {a b : Value} {as bs : List Value} {o : Ordering}
      (hnil : (lenient && (a.isNil || b.isNil)) = true)
      (h : Compares lenient (.list as) (.list bs) o) :
      Compares lenient (.list (a :: as)) (.list (b :: bs)) o
  | decided {a b : Value} {as bs : List Value} {o : Ordering} (h : Compares lenient a b o)
      (hne : o ≠ .eq) : Compares lenient (.list (a :: as)) (.list (b :: bs)) o
  | tied {a b : Value} {as bs : List Value} {o : Ordering} (h : Compares lenient a b .eq)
      (hs : Compares lenient (.list as) (.list bs) o) :
      Compares lenient (.list (a :: as)) (.list (b :: bs)) o

variable {lenient : Bool} {a b : Value} {o : Ordering}

theorem naturalPair_of_naturalOrder? (h : a.naturalOrder? b = some o) : NaturalPair a b := by
  obtain ⟨less, hless, -⟩ := Option.map_eq_some_iff.1 h
  exact naturalPair_of_naturalLess? hless

/-- Nil compares with nothing. -/
theorem Compares.not_isNil (h : Compares lenient a b o) : (a.isNil || b.isNil) = false := by
  cases h with
  | natural h => cases naturalPair_of_naturalOrder? h <;> rfl
  | _ => rfl

/-- Values that compare are found to do so. -/
theorem Compares.order_eq (h : Compares lenient a b o) : order lenient a b = .ok o := by
  induction h with
  | @natural a b o h =>
    have hab : ∀ as bs, a = .list as → b = .list bs → False := by
      intro as bs ha hb
      subst ha hb
      cases naturalPair_of_naturalOrder? h
    rw [order_of_not_lists lenient hab, h]
  | bothEnd => rfl
  | leftEnds b bs => rfl
  | rightEnds a as => rfl
  | passed hnil _ ih =>
    show orderItems _ (_ :: _) (_ :: _) = _
    rw [orderItems_cons, elementOrder, if_pos hnil]
    exact ih
  | decided h hne ih =>
    -- Elements that compare are not nil, so they are not passed over.
    show orderItems _ (_ :: _) (_ :: _) = _
    rw [orderItems_cons, elementOrder, h.not_isNil, Bool.and_false, if_neg Bool.false_ne_true, ih]
    split
    · next heq =>
      cases heq
      exact absurd rfl hne
    · rfl
  | tied h _ ih ihs =>
    show orderItems _ (_ :: _) (_ :: _) = _
    rw [orderItems_cons, elementOrder, h.not_isNil, Bool.and_false, if_neg Bool.false_ne_true, ih]
    exact ihs

theorem exists_naturalOrder?_of_order (hab : ∀ as bs, a = .list as → b = .list bs → False)
    (h : order lenient a b = .ok o) : a.naturalOrder? b = some o := by
  rw [order_of_not_lists lenient hab] at h
  split at h
  · next heq =>
    cases h
    exact heq
  · cases h

mutual
/-- Values that are found to compare do so. -/
theorem compares_of_order (a b : Value) {o : Ordering} (h : order lenient a b = .ok o) :
    Compares lenient a b o := by
  cases a with
  | list as =>
    cases b with
    | list bs => exact compares_of_orderItems as bs h
    | _ => exact .natural (exists_naturalOrder?_of_order nofun h)
  | _ => exact .natural (exists_naturalOrder?_of_order nofun h)
termination_by structural a
theorem compares_of_orderItems (as bs : List Value) {o : Ordering}
    (h : orderItems lenient as bs = .ok o) : Compares lenient (.list as) (.list bs) o := by
  match as, bs with
  | [], [] =>
    cases h
    exact .bothEnd
  | [], b :: bs =>
    cases h
    exact .leftEnds b bs
  | a :: as, [] =>
    cases h
    exact .rightEnds a as
  | a :: as, b :: bs =>
    rw [orderItems_cons] at h
    split at h
    · next htie =>
      rcases elementOrder_cases htie with ⟨hnil, -⟩ | heq
      · exact .passed hnil (compares_of_orderItems as bs h)
      · exact .tied (compares_of_order a b heq) (compares_of_orderItems as bs h)
    · next hne =>
      -- The answer is that of the first elements, which is not a tie.
      rcases elementOrder_cases h with ⟨-, rfl⟩ | heq
      · exact absurd h hne
      · apply Compares.decided (compares_of_order a b heq)
        intro ho
        rw [ho] at h
        exact hne h
termination_by structural as
end

/-- Exchanging two values turns their order round. -/
theorem Compares.swap (h : Compares lenient a b o) : Compares lenient b a o.swap := by
  induction h with
  | natural h => exact .natural (naturalOrder?_swap h)
  | bothEnd => exact .bothEnd
  | leftEnds b bs => exact .rightEnds b bs
  | rightEnds a as => exact .leftEnds a as
  | passed hnil _ ih => exact .passed (by rwa [Bool.or_comm]) ih
  | decided _ hne ih => exact .decided ih (by simpa [Ordering.swap_eq_eq] using hne)
  | tied _ _ ih ihs => exact .tied ih ihs

theorem order_swap (h : order lenient a b = .ok o) : order lenient b a = .ok o.swap :=
  (compares_of_order a b h).swap.order_eq

theorem elementOrder_swap (h : elementOrder lenient a b = .ok o) :
    elementOrder lenient b a = .ok o.swap := by
  unfold elementOrder at h ⊢
  rw [Bool.or_comm]
  split at h
  · next hnil =>
    cases h
    exact if_pos hnil
  · next hnil =>
    rw [if_neg hnil]
    exact order_swap h

theorem error_of_naturalOrder? {e : Error} (h : order lenient a b = .error e)
    (hab : ∀ as bs, a = .list as → b = .list bs → False) :
    ∃ x y, e = .ofMisfit (.notComparable x y) := by
  rw [order_of_not_lists lenient hab] at h
  split at h
  · cases h
  · cases h
    exact ⟨a, b, rfl⟩

mutual
/-- The only thing that goes wrong is that two values do not compare. -/
theorem error_of_order (a b : Value) {e : Error} (h : order lenient a b = .error e) :
    ∃ x y, e = .ofMisfit (.notComparable x y) := by
  cases a with
  | list as =>
    cases b with
    | list bs => exact error_of_orderItems as bs h
    | _ => exact error_of_naturalOrder? h nofun
  | _ => exact error_of_naturalOrder? h nofun
termination_by structural a
theorem error_of_orderItems (as bs : List Value) {e : Error}
    (h : orderItems lenient as bs = .error e) : ∃ x y, e = .ofMisfit (.notComparable x y) := by
  match as, bs with
  | [], [] | [], _ :: _ | _ :: _, [] => cases h
  | a :: as, b :: bs =>
    rw [orderItems_cons, elementOrder] at h
    split at h
    · exact error_of_orderItems as bs h
    · split at h
      · cases h
      · exact error_of_order a b h
termination_by structural as
end

end Value

end HostLisp
