import HostLisp.Host.Sample
import HostLisp.Proofs.Evaluation.Builtins
import HostLisp.Proofs.Order.Computation

/-!
# The strict order

Among values without floats less is a strict order, and values that compare are equal if neither is
less.  Failing is symmetric.  So three-way comparison answers zero for equal values and nothing
else, and it fails exactly where different values do not compare.

Integers and floats compare as floats, where two values may be alike that are not equal.
-/

namespace HostLisp

namespace Value

/-! ### Floats inside values -/

mutual
/-- Every float that comparing the value may come upon, which is itself or, at any depth, an item of
lists, has the property. -/
def EveryFloat (P : Float → Prop) : Value → Prop
  | .float x => P x
  | .list items => EveryFloatIn P items
  | _ => True
termination_by structural v => v
/-- The same for each of several values. -/
def EveryFloatIn (P : Float → Prop) : List Value → Prop
  | [] => True
  | v :: vs => EveryFloat P v ∧ EveryFloatIn P vs
termination_by structural vs => vs
end

/-- There is no float in the value. -/
def FloatFree (v : Value) : Prop := v.EveryFloat fun _ => False

/-- Every float in the value is a number. -/
def NumbersOnly (v : Value) : Prop := v.EveryFloat fun x => x.isNaN = false

mutual
theorem EveryFloat.imp {P Q : Float → Prop} (hPQ : ∀ x, P x → Q x) (v : Value)
    (h : v.EveryFloat P) : v.EveryFloat Q := by
  cases v with
  | float x => exact hPQ x h
  | list items => exact EveryFloatIn.imp hPQ items h
  | _ => trivial
termination_by structural v
theorem EveryFloatIn.imp {P Q : Float → Prop} (hPQ : ∀ x, P x → Q x) (vs : List Value)
    (h : EveryFloatIn P vs) : EveryFloatIn Q vs := by
  cases vs with
  | nil => trivial
  | cons v vs => exact ⟨EveryFloat.imp hPQ v h.1, EveryFloatIn.imp hPQ vs h.2⟩
termination_by structural vs
end

theorem FloatFree.numbersOnly {v : Value} (h : v.FloatFree) : v.NumbersOnly :=
  EveryFloat.imp (fun _ => False.elim) v h

/-! ### Alike values -/

mutual
/-- The values are equal if integers are widened wherever one faces a float. -/
def alike : Value → Value → Bool
  | .int n, .float y => widen n == y
  | .float x, .int n => x == widen n
  | .list as, .list bs => alikeItems as bs
  | a, b => a == b
termination_by structural a => a
/-- The same item by item. -/
def alikeItems : List Value → List Value → Bool
  | [], [] => true
  | a :: as, b :: bs => alike a b && alikeItems as bs
  | _, _ => false
termination_by structural as => as
end

variable {a b c : Value} {o : Ordering}

/-- Values compare as equal if neither is less. -/
theorem eq_iff_of_naturalOrder? (h : a.naturalOrder? b = some o) :
    o = .eq ↔ a.naturalLess? b = some false ∧ b.naturalLess? a = some false := by
  obtain ⟨less, hless, rfl⟩ := Option.map_eq_some_iff.1 h
  obtain ⟨greater, hgreater, hasymm⟩ := naturalLess?_swap hless
  rw [hless, hgreater]
  cases less <;> cases greater <;> simp

theorem decide_eq_false_and {p q : Prop} [Decidable p] [Decidable q] :
    some (decide p) = some false ∧ some (decide q) = some false ↔ ¬ p ∧ ¬ q := by
  simp

/-- Of two numbers neither is less if they are equal. -/
theorem not_lt_and_not_lt_iff {x y : Float} (hx : x.isNaN = false) (hy : y.isNaN = false) :
    ¬ x < y ∧ ¬ y < x ↔ (x == y) = true := by
  constructor
  · intro h
    exact Float.beq_of_not_lt hx hy h.1 h.2
  · intro h
    exact ⟨Float.not_lt_of_beq h, Float.not_lt_of_beq (Float.beq_swap x y ▸ h)⟩

theorem alike_iff_of_naturalOrder? (h : a.naturalOrder? b = some o) (ha : a.NumbersOnly)
    (hb : b.NumbersOnly) : alike a b = true ↔ o = .eq := by
  rw [eq_iff_of_naturalOrder? h]
  cases naturalPair_of_naturalOrder? h with
  | ints m n =>
    refine Iff.trans ?_ decide_eq_false_and.symm
    show (m == n) = true ↔ _
    rw [beq_iff_eq, Int64.not_lt, Int64.not_lt]
    exact ⟨fun h => by simp [h], fun h => Int64.le_antisymm h.2 h.1⟩
  | floats x y =>
    exact (decide_eq_false_and.trans (not_lt_and_not_lt_iff ha hb)).symm
  | intFloat n y =>
    exact (decide_eq_false_and.trans (not_lt_and_not_lt_iff (Float.isNaN_widen n) hb)).symm
  | floatInt x n =>
    exact (decide_eq_false_and.trans (not_lt_and_not_lt_iff ha (Float.isNaN_widen n))).symm
  | strings s t =>
    refine Iff.trans ?_ decide_eq_false_and.symm
    show (s == t) = true ↔ _
    rw [beq_iff_eq, not_lt, not_lt, and_comm]
    exact le_antisymm_iff
  | times s t =>
    refine Iff.trans ?_ decide_eq_false_and.symm
    show (s == t) = true ↔ _
    obtain ⟨m, hm⟩ := s
    obtain ⟨n, hn⟩ := t
    rw [beq_iff_eq, not_lt, not_lt, Instant.mk.injEq, and_comm]
    exact le_antisymm_iff
  | durations s t =>
    refine Iff.trans ?_ decide_eq_false_and.symm
    show (s == t) = true ↔ _
    obtain ⟨m, hm⟩ := s
    obtain ⟨n, hn⟩ := t
    rw [beq_iff_eq, not_lt, not_lt, Duration.mk.injEq, and_comm]
    exact le_antisymm_iff

/-- Values that compare are alike if neither is less. -/
theorem Compares.alike_iff (h : Compares false a b o) (ha : a.NumbersOnly) (hb : b.NumbersOnly) :
    alike a b = true ↔ o = .eq := by
  induction h with
  | natural h => exact alike_iff_of_naturalOrder? h ha hb
  | bothEnd => exact ⟨fun _ => rfl, fun _ => rfl⟩
  | leftEnds b bs => exact ⟨nofun, nofun⟩
  | rightEnds a as => exact ⟨nofun, nofun⟩
  | passed hnil => cases hnil
  | @decided a b as bs o _ hne ih =>
    -- The first items differ, so that the others do not matter.
    show (alike a b && alikeItems as bs) = true ↔ _
    have hnot : ¬ alike a b = true := by
      intro heq
      exact hne ((ih ha.1 hb.1).1 heq)
    rw [Bool.not_eq_true] at hnot
    rw [hnot, Bool.false_and]
    exact ⟨nofun, fun heq => absurd heq hne⟩
  | @tied a b as bs o _ _ ih ihs =>
    show (alike a b && alikeItems as bs) = true ↔ _
    rw [(ih ha.1 hb.1).2 rfl, Bool.true_and]
    exact ihs ha.2 hb.2

/-! ### Without floats -/

mutual
theorem alike_of_floatFree (a b : Value) (ha : a.FloatFree) (hb : b.FloatFree) :
    alike a b = (a == b) := by
  cases a with
  | int n =>
    cases b with
    | float y => exact hb.elim
    | _ => rfl
  | float x => exact ha.elim
  | list as =>
    cases b with
    | list bs => exact alikeItems_of_floatFree as bs ha hb
    | _ => rfl
  | _ => rfl
termination_by structural a
theorem alikeItems_of_floatFree (as bs : List Value) (ha : (Value.list as).FloatFree)
    (hb : (Value.list bs).FloatFree) : alikeItems as bs = sameItems as bs := by
  match as, bs with
  | [], [] | [], _ :: _ | _ :: _, [] => rfl
  | a :: as, b :: bs =>
    show (alike a b && alikeItems as bs) = (same a b && sameItems as bs)
    rw [alike_of_floatFree a b ha.1 hb.1, alikeItems_of_floatFree as bs ha.2 hb.2]
    rfl
termination_by structural as
end

/-- Without floats, values that compare are equal if neither is less. -/
theorem Compares.beq_iff (h : Compares false a b o) (ha : a.FloatFree) (hb : b.FloatFree) :
    (a == b) = true ↔ o = .eq := by
  rw [← alike_of_floatFree a b ha hb]
  exact h.alike_iff ha.numbersOnly hb.numbersOnly

theorem NaturalPair.eq_of_beq (h : NaturalPair a b) (ha : a.FloatFree) (hb : b.FloatFree)
    (heq : (a == b) = true) : a = b := by
  cases h with
  | ints m n => exact congrArg Value.int (beq_iff_eq.1 heq)
  | floats x y => exact ha.elim
  | intFloat n y => exact hb.elim
  | floatInt x n => exact ha.elim
  | strings s t => exact congrArg Value.string (beq_iff_eq.1 heq)
  | times s t => exact congrArg Value.time (beq_iff_eq.1 heq)
  | durations s t => exact congrArg Value.duration (beq_iff_eq.1 heq)

/-- Without floats, values of which neither is less are the same. -/
theorem Compares.eq_of_tie (h : Compares false a b o) (ho : o = .eq) (ha : a.FloatFree)
    (hb : b.FloatFree) : a = b := by
  induction h with
  | natural h =>
    have hnatural := naturalPair_of_naturalOrder? h
    exact hnatural.eq_of_beq ha hb (((Compares.natural h).beq_iff ha hb).2 ho)
  | bothEnd => rfl
  | leftEnds b bs => cases ho
  | rightEnds a as => cases ho
  | passed hnil => cases hnil
  | decided _ hne => exact absurd ho hne
  | tied _ _ ih ihs =>
    have hhead := ih rfl ha.1 hb.1
    have htail := Value.list.inj (ihs ho ha.2 hb.2)
    rw [hhead, htail]

/-! ### Transitivity -/

theorem decide_eq_true_of_trans {p q r : Prop} [Decidable p] [Decidable q] [Decidable r]
    (h : p → q → r) (hp : some (decide p) = some true) (hq : some (decide q) = some true) :
    some (decide r) = some true := by
  have hp := of_decide_eq_true (Option.some.inj hp)
  have hq := of_decide_eq_true (Option.some.inj hq)
  exact congrArg some (decide_eq_true (h hp hq))

theorem naturalLess?_trans (hab : a.naturalLess? b = some true) (hbc : b.naturalLess? c = some true)
    (ha : a.FloatFree) (hb : b.FloatFree) (hc : c.FloatFree) : a.naturalLess? c = some true := by
  have hpair := naturalPair_of_naturalLess? hbc
  cases naturalPair_of_naturalLess? hab with
  | ints l m =>
    cases hpair with
    | ints m n => exact decide_eq_true_of_trans Int64.lt_trans hab hbc
    | intFloat m y => exact hc.elim
  | floats x y => exact ha.elim
  | intFloat n y => exact hb.elim
  | floatInt x n => exact ha.elim
  | strings s t =>
    cases hpair with
    | strings t u => exact decide_eq_true_of_trans lt_trans hab hbc
  | times s t =>
    cases hpair with
    | times t u => exact decide_eq_true_of_trans lt_trans hab hbc
  | durations s t =>
    cases hpair with
    | durations t u => exact decide_eq_true_of_trans lt_trans hab hbc

theorem naturalOrder?_eq_lt_iff : a.naturalOrder? b = some .lt ↔ a.naturalLess? b = some true := by
  unfold naturalOrder?
  cases a.naturalLess? b with
  | none => simp
  | some less =>
    cases less with
    | true => simp
    | false => by_cases h : b.naturalLess? a = some true <;> simp [h]

/-- The order goes on.  The induction is on how the first two compare; how the last two do is taken
apart at the same item. -/
theorem Compares.trans (hab : Compares false a b o) (ho : o = .lt) (hbc : Compares false b c .lt)
    (ha : a.FloatFree) (hb : b.FloatFree) (hc : c.FloatFree) : Compares false a c .lt := by
  induction hab generalizing c with
  | natural h =>
    subst ho
    cases hbc with
    | natural h' =>
      rw [naturalOrder?_eq_lt_iff] at h h'
      exact .natural (naturalOrder?_eq_lt_iff.2 (naturalLess?_trans h h' ha hb hc))
    | _ => cases naturalPair_of_naturalOrder? h
  | bothEnd => cases ho
  | leftEnds b bs =>
    cases hbc with
    | natural h => cases naturalPair_of_naturalOrder? h
    | passed hnil => cases hnil
    | decided => exact .leftEnds _ _
    | tied => exact .leftEnds _ _
  | rightEnds a as => cases ho
  | passed hnil => cases hnil
  | decided hab' _ ih =>
    subst ho
    cases hbc with
    | natural h => cases naturalPair_of_naturalOrder? h
    | passed hnil => cases hnil
    | decided hbc' hne => exact .decided (ih rfl hbc' ha.1 hb.1 hc.1) hne
    | tied htie _ =>
      -- Only here it matters that there are no floats: the items are not merely alike but the same.
      have heq := htie.eq_of_tie rfl hb.1 hc.1
      subst heq
      exact .decided hab' (by decide)
  | tied htie _ _ ihs =>
    have heq := htie.eq_of_tie rfl ha.1 hb.1
    subst heq
    cases hbc with
    | natural h => cases naturalPair_of_naturalOrder? h
    | passed hnil => cases hnil
    | decided hbc' hne => exact .decided hbc' hne
    | tied htie' hs => exact .tied htie' (ihs ho hs ha.2 hb.2 hc.2)

/-! ### Whether a value is less -/

theorem lessBy_ok_iff {outcome : Except Error Ordering} {r : Bool} :
    lessBy outcome = .ok r ↔ ∃ o, outcome = .ok o ∧ (o == .lt) = r := by
  cases outcome <;> simp [lessBy, Except.map]

theorem lessBy_error_iff {outcome : Except Error Ordering} :
    (∃ e, lessBy outcome = .error e) ↔ ∃ e, outcome = .error e := by
  cases outcome <;> simp [lessBy, Except.map]

theorem lessBy_eq_true_iff : lessBy (order false a b) = .ok true ↔ order false a b = .ok .lt := by
  rw [lessBy_ok_iff]
  constructor
  · intro h
    obtain ⟨o, ho, hlt⟩ := h
    rw [ho, beq_iff_eq.1 hlt]
  · intro h
    exact ⟨.lt, h, rfl⟩

theorem exists_lessBy_swap (h : ∃ r, lessBy (order false a b) = .ok r) :
    ∃ r, lessBy (order false b a) = .ok r := by
  obtain ⟨r, hr⟩ := h
  obtain ⟨o, ho, -⟩ := lessBy_ok_iff.1 hr
  exact ⟨_, lessBy_ok_iff.2 ⟨o.swap, order_swap ho, rfl⟩⟩

/-- Without floats, of two values that compare one is less or they are equal. -/
theorem lessBy_trichotomy {r s : Bool} (ha : a.FloatFree) (hb : b.FloatFree)
    (hr : lessBy (order false a b) = .ok r) (hs : lessBy (order false b a) = .ok s) :
    r = true ∧ s = false ∧ (a == b) = false ∨ r = false ∧ s = true ∧ (a == b) = false ∨
      r = false ∧ s = false ∧ (a == b) = true := by
  obtain ⟨o, ho, rfl⟩ := lessBy_ok_iff.1 hr
  rw [order_swap ho] at hs
  cases hs
  have heq := (compares_of_order a b ho).beq_iff ha hb
  cases o with
  | lt => exact .inl ⟨rfl, rfl, by simpa using heq⟩
  | gt => exact .inr (.inl ⟨rfl, rfl, by simpa using heq⟩)
  | eq => exact .inr (.inr ⟨rfl, rfl, heq.2 rfl⟩)

theorem order_trans (ha : a.FloatFree) (hb : b.FloatFree) (hc : c.FloatFree)
    (hab : order false a b = .ok .lt) (hbc : order false b c = .ok .lt) :
    order false a c = .ok .lt := by
  have hab := compares_of_order a b hab
  exact (hab.trans rfl (compares_of_order b c hbc) ha hb hc).order_eq

/-! ### Three-way comparison -/

/-- What three-way comparison answers, by how the values compare. -/
def threeWay (a b : Value) : Except Error Value :=
  orderOf a b (lessBy (order false a b)) (lessBy (order false b a))

theorem threeWay_of_lt (h : order false a b = .ok .lt) : threeWay a b = .ok (.int (-1)) := by
  unfold threeWay
  rw [h]
  rfl

theorem threeWay_of_gt (h : order false a b = .ok .gt) : threeWay a b = .ok (.int 1) := by
  unfold threeWay
  rw [h, order_swap h]
  rfl

theorem threeWay_of_eq (h : order false a b = .ok .eq) :
    threeWay a b = if a == b then .ok (.int 0) else .error (.unordered a b) := by
  unfold threeWay
  rw [h, order_swap h]
  rfl

theorem threeWay_of_error {e : Error} (h : order false a b = .error e) :
    threeWay a b = if a == b then .ok (.int 0) else .error (.unordered a b) := by
  obtain ⟨x, y, rfl⟩ := error_of_order a b h
  unfold threeWay
  rw [h]
  cases hba : order false b a with
  | error e' => rfl
  | ok o =>
    rw [order_swap hba] at h
    cases h

/-- Three-way comparison fails only for lack of an order, and values that compare one way or the
other have one. -/
theorem threeWay_cases (a b : Value) :
    order false a b = .ok .lt ∧ threeWay a b = .ok (.int (-1)) ∨
      order false a b = .ok .gt ∧ threeWay a b = .ok (.int 1) ∨
      (order false a b = .ok .eq ∨ ∃ e, order false a b = .error e) ∧
        (threeWay a b = .ok (.int 0) ∧ (a == b) = true ∨
          threeWay a b = .error (.unordered a b) ∧ (a == b) = false) := by
  have htie : threeWay a b = (if a == b then .ok (.int 0) else .error (.unordered a b)) →
      threeWay a b = .ok (.int 0) ∧ (a == b) = true ∨
        threeWay a b = .error (.unordered a b) ∧ (a == b) = false := by
    intro h
    cases heq : a == b with
    | true => exact .inl ⟨by rw [h, heq]; rfl, rfl⟩
    | false => exact .inr ⟨by rw [h, heq]; rfl, rfl⟩
  cases h : order false a b with
  | error e => exact .inr (.inr ⟨.inr ⟨e, rfl⟩, htie (threeWay_of_error h)⟩)
  | ok o =>
    cases o with
    | lt => exact .inl ⟨rfl, threeWay_of_lt h⟩
    | gt => exact .inr (.inl ⟨rfl, threeWay_of_gt h⟩)
    | eq => exact .inr (.inr ⟨.inl rfl, htie (threeWay_of_eq h)⟩)

theorem threeWay_eq_neg_one_iff : threeWay a b = .ok (.int (-1)) ↔ order false a b = .ok .lt := by
  refine ⟨fun h => ?_, threeWay_of_lt⟩
  rcases threeWay_cases a b with ⟨hlt, -⟩ | ⟨-, hgt⟩ | ⟨-, ⟨htie, -⟩ | ⟨htie, -⟩⟩
  · exact hlt
  · exact absurd (h.symm.trans hgt) (by simp)
  · exact absurd (h.symm.trans htie) (by simp)
  · exact absurd (h.symm.trans htie) (by simp)

theorem threeWay_eq_one_iff : threeWay a b = .ok (.int 1) ↔ order false a b = .ok .gt := by
  refine ⟨fun h => ?_, threeWay_of_gt⟩
  rcases threeWay_cases a b with ⟨-, hlt⟩ | ⟨hgt, -⟩ | ⟨-, ⟨htie, -⟩ | ⟨htie, -⟩⟩
  · exact absurd (h.symm.trans hlt) (by simp)
  · exact hgt
  · exact absurd (h.symm.trans htie) (by simp)
  · exact absurd (h.symm.trans htie) (by simp)

/-- Without floats, values are equal exactly where three-way comparison answers zero. -/
theorem threeWay_eq_zero_iff (ha : a.FloatFree) (hb : b.FloatFree) :
    threeWay a b = .ok (.int 0) ↔ (a == b) = true := by
  have hne : ∀ {o}, order false a b = .ok o → o ≠ .eq → ¬ (a == b) = true := by
    intro o h ho heq
    exact ho (((compares_of_order a b h).beq_iff ha hb).1 heq)
  rcases threeWay_cases a b with ⟨h, hlt⟩ | ⟨h, hgt⟩ | ⟨-, ⟨htie, heq⟩ | ⟨htie, heq⟩⟩
  · have hne := hne h (by decide)
    rw [hlt]
    simp [hne]
  · have hne := hne h (by decide)
    rw [hgt]
    simp [hne]
  · rw [htie, heq]
    simp
  · rw [htie, heq]
    simp

theorem threeWay_error {e : Error} (h : threeWay a b = .error e) : e = .unordered a b := by
  rcases threeWay_cases a b with ⟨-, hlt⟩ | ⟨-, hgt⟩ | ⟨-, ⟨htie, -⟩ | ⟨htie, -⟩⟩
  · cases h.symm.trans hlt
  · cases h.symm.trans hgt
  · cases h.symm.trans htie
  · cases h.symm.trans htie
    rfl

/-- Without floats, three-way comparison fails for different values that do not compare. -/
theorem threeWay_error_iff (ha : a.FloatFree) (hb : b.FloatFree) :
    (∃ e, threeWay a b = .error e) ↔ (a == b) = false ∧ ∃ e, order false a b = .error e := by
  rcases threeWay_cases a b with ⟨h, hlt⟩ | ⟨h, hgt⟩ | ⟨h, ⟨htie, heq⟩ | ⟨htie, heq⟩⟩
  · rw [h, hlt]
    simp
  · rw [h, hgt]
    simp
  · rw [htie, heq]
    simp
  · rcases h with h | ⟨e, h⟩
    · cases heq.symm.trans (((compares_of_order a b h).beq_iff ha hb).2 rfl)
    · rw [htie, h, heq]
      simp

end Value

/-! ### In a running program -/

theorem comparesPlainly_of_lookup {level : Level} {env : Environment} {lenient : Bool}
    (hremaining : level.remaining ≠ 0)
    (h : env.lookup (comparator lenient) = none ∨ ∃ id, env.lookup (comparator lenient) =
      some (.value (.native ⟨id, .builtin (.primitive (.comparison (.less lenient)))⟩))) :
    level.ComparesPlainly env lenient := by
  unfold Level.ComparesPlainly Environment.callable?
  rcases h with h | ⟨id, h⟩
  · rw [h]
    exact .inl rfl
  · rw [h]
    exact .inr ⟨hremaining, id, rfl⟩

theorem Environment.get?_global {name : String} (h : name ≠ "time") :
    global.get? name = withBuiltins.get? name := by
  show (withBuiltins.define (Toolkit.Time.kit 0).name _).get? name = _
  rw [get?_define]
  exact if_neg h

/-- In the global environment comparators are the primitives. -/
theorem comparesPlainly_global {level : Level} (hremaining : level.remaining ≠ 0) (lenient : Bool) :
    level.ComparesPlainly .global lenient := by
  have hget : Environment.global.get? (comparator lenient) =
      Environment.withBuiltins.get? (comparator lenient) :=
    Environment.get?_global (by cases lenient <;> decide)
  refine comparesPlainly_of_lookup hremaining ?_
  unfold Environment.lookup
  rw [hget]
  cases hb : Environment.withBuiltins.get? (comparator lenient) with
  | none =>
    have hsplit : Environment.splitMember? (comparator lenient) = none := by
      cases lenient <;> decide
    rw [hsplit]
    exact .inl rfl
  | some b =>
    obtain ⟨op, hop, hname, rfl⟩ := Environment.exists_of_get?_withBuiltins hb
    have hop := Builtin.eq_of_comparator_mem op hop lenient hname
    subst hop
    exact .inr ⟨_, rfl⟩

theorem lessThan_outcome {host : Host} {level : Level} {m : Machine} {lenient : Bool}
    (h : level.ComparesPlainly m.env lenient) (a b : Value) :
    (lessThan host level lenient a b m).1 = lessBy (Value.order lenient a b) := by
  obtain ⟨d, hd⟩ := yields_lessThan h a b m rfl
  rw [hd]

theorem order_outcome {host : Host} {level : Level} {m : Machine}
    (h : level.ComparesPlainly m.env false) (a b : Value) :
    (runPrimitive host level .order [a, b] m).1 = Value.threeWay a b := by
  obtain ⟨d, hd⟩ := yields_order h a b m rfl
  rw [hd]
  rfl

/-- The strict comparison is a strict order that agrees with equality, and three-way comparison says
which case holds. -/
theorem less_strict {host : Host} {level : Level} {m : Machine}
    (h : level.ComparesPlainly m.env false) {a b c : Value} (ha : a.FloatFree) (hb : b.FloatFree)
    (hc : c.FloatFree) :
    let less (x y : Value) := (lessThan host level false x y m).1
    let cmp (x y : Value) := (runPrimitive host level .order [x, y] m).1
    ((∃ r, less a b = .ok r) ↔ ∃ r, less b a = .ok r) ∧
      (∀ r s, less a b = .ok r → less b a = .ok s →
        r = true ∧ s = false ∧ (a == b) = false ∨ r = false ∧ s = true ∧ (a == b) = false ∨
          r = false ∧ s = false ∧ (a == b) = true) ∧
      (less a b = .ok true → less b c = .ok true → less a c = .ok true) ∧
      (cmp a b = .ok (.int 0) ↔ (a == b) = true) ∧
      (cmp a b = .ok (.int (-1)) ↔ cmp b a = .ok (.int 1)) ∧
      (cmp a b = .ok (.int (-1)) → cmp b c = .ok (.int (-1)) → cmp a c = .ok (.int (-1))) ∧
      ((∃ e, cmp a b = .error e) ↔ (a == b) = false ∧ ∃ e, less a b = .error e) ∧
      ∀ e, cmp a b = .error e → e = .unordered a b := by
  intro less cmp
  have hless : ∀ x y, less x y = lessBy (Value.order false x y) := lessThan_outcome h
  have hcmp : ∀ x y, cmp x y = Value.threeWay x y := order_outcome h
  simp only [hless, hcmp]
  refine ⟨?_, ?_, ?_, ?_, ?_, ?_, ?_, ?_⟩
  · exact ⟨Value.exists_lessBy_swap, Value.exists_lessBy_swap⟩
  · -- Exactly one of less, greater and equal.
    intro r s hr hs
    exact Value.lessBy_trichotomy ha hb hr hs
  · simp only [Value.lessBy_eq_true_iff]
    exact Value.order_trans ha hb hc
  · exact Value.threeWay_eq_zero_iff ha hb
  · rw [Value.threeWay_eq_neg_one_iff, Value.threeWay_eq_one_iff]
    exact ⟨Value.order_swap, Value.order_swap⟩
  · simp only [Value.threeWay_eq_neg_one_iff]
    exact Value.order_trans ha hb hc
  · rw [Value.threeWay_error_iff ha hb, Value.lessBy_error_iff]
  · intro e he
    exact Value.threeWay_error he

/-- In the global environment `(1 2)` comes before `(1 3)` and that before `(2)`. -/
theorem less_strict_lists :
    (lessThan Host.Sample.host (.top Host.Sample.host) false (.list [.int 1, .int 2])
      (.list [.int 2]) (.global default)).1 = .ok true := by
  have h : (Level.top Host.Sample.host).ComparesPlainly (Machine.global default).env false :=
    comparesPlainly_global (by decide) false
  have ha : (Value.list [.int 1, .int 2]).FloatFree := ⟨trivial, trivial, trivial⟩
  have hb : (Value.list [.int 1, .int 3]).FloatFree := ⟨trivial, trivial, trivial⟩
  have hc : (Value.list [.int 2]).FloatFree := ⟨trivial, trivial⟩
  exact (less_strict h ha hb hc).2.2.1 ((lessThan_outcome h _ _).trans rfl)
    ((lessThan_outcome h _ _).trans rfl)

end HostLisp
