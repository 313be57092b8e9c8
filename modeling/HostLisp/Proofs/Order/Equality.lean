import HostLisp.Eval
import HostLisp.Global
import HostLisp.Host.Sample

/-!
# Equality

Equality looks at the items of lists and into quotes, and knows closures, deferred computations,
natives and objects of the host by what they are called or were made as.  What it looks at is the
essence of a value, and among values without floats equality is equality of essences,

    beq_iff_essence : a.hasFloat = false → ((a == b) = true ↔ a.essence = b.essence)

so it is an equivalence.  The operations compare each operand with the next one only; that all
operands are equal, whatever their order, follows.
-/

namespace HostLisp

namespace Value

/-! ### Floats -/

mutual
/-- Equality may come upon a float in the value. -/
def hasFloat : Value → Bool
  | .float _ => true
  | .list items => anyHasFloat items
  | .quote inner => hasFloat inner
  | _ => false
termination_by structural v => v
/-- The same for one of several values. -/
def anyHasFloat : List Value → Bool
  | [] => false
  | v :: vs => hasFloat v || anyHasFloat vs
termination_by structural vs => vs
end

/-! ### Essences -/

mutual
/-- The value without what equality does not look at. -/
def essence : Value → Value
  | .list items => .list (essences items)
  | .quote inner => .quote (essence inner)
  | .lambda identity _ => .lambda identity ⟨⟨[], none⟩, [], []⟩
  | .deferred task => .deferred ⟨task.identity, "", .nil⟩
  | .native callable => .native ⟨callable.id, .raw "" .nil⟩
  | v => v
termination_by structural v => v
/-- The values without what equality does not look at. -/
def essences : List Value → List Value
  | [] => []
  | v :: vs => essence v :: essences vs
termination_by structural vs => vs
end

mutual
theorem same_iff_essence (a b : Value) (ha : a.hasFloat = false) :
    same a b = true ↔ a.essence = b.essence := by
  cases a with
  | list as =>
    cases b with
    | list bs =>
      rw [essence, essence, list.injEq]
      exact sameItems_iff_essences as bs ha
    | _ => simp [same, essence]
  | quote u =>
    cases b with
    | quote v =>
      rw [essence, essence, quote.injEq]
      exact same_iff_essence u v ha
    | _ => simp [same, essence]
  | float x => cases ha
  | _ => cases b <;> simp [same, essence]
termination_by structural a
theorem sameItems_iff_essences (as bs : List Value) (ha : anyHasFloat as = false) :
    sameItems as bs = true ↔ essences as = essences bs := by
  match as, bs with
  | [], [] | [], _ :: _ | _ :: _, [] => simp [sameItems, essences]
  | a :: as, b :: bs =>
    obtain ⟨ha, has⟩ := Bool.or_eq_false_iff.1 ha
    rw [essences, essences, List.cons.injEq, ← same_iff_essence a b ha,
      ← sameItems_iff_essences as bs has]
    exact Bool.and_eq_true_iff
termination_by structural as
end

variable {a b c : Value} {vs ws : List Value}

theorem beq_iff_essence (ha : a.hasFloat = false) (b : Value) :
    (a == b) = true ↔ a.essence = b.essence := same_iff_essence a b ha

/-! ### Rows of operands -/

/-- Each operand equals the next one exactly if the first one equals all others. -/
theorem allSame_cons_iff (hvs : ∀ v ∈ a :: vs, v.hasFloat = false) :
    allSame (a :: vs) = true ↔ ∀ v ∈ vs, a.essence = v.essence := by
  induction vs generalizing a with
  | nil => exact ⟨nofun, fun _ => rfl⟩
  | cons b vs ih =>
    obtain ⟨ha, hvs⟩ := List.forall_mem_cons.1 hvs
    have hstep : allSame (a :: b :: vs) = (a == b && allSame (b :: vs)) := rfl
    rw [hstep, Bool.and_eq_true_iff, beq_iff_essence ha, ih hvs, List.forall_mem_cons]
    constructor
    · rintro ⟨hab, hall⟩
      exact ⟨hab, fun v hv => hab.trans (hall v hv)⟩
    · rintro ⟨hab, hall⟩
      exact ⟨hab, fun v hv => hab.symm.trans (hall v hv)⟩

theorem allSame_iff (hvs : ∀ v ∈ vs, v.hasFloat = false) :
    allSame vs = true ↔ ∀ a ∈ vs, ∀ b ∈ vs, (a == b) = true := by
  have hbeq : (∀ a ∈ vs, ∀ b ∈ vs, (a == b) = true) ↔ ∀ a ∈ vs, ∀ b ∈ vs, a.essence = b.essence :=
    forall₂_congr fun a ha => forall₂_congr fun b _ => beq_iff_essence (hvs a ha) b
  rw [hbeq]
  cases vs with
  | nil => exact ⟨nofun, fun _ => rfl⟩
  | cons a vs =>
    rw [allSame_cons_iff hvs]
    constructor
    · intro h
      have hfirst : ∀ v ∈ a :: vs, a.essence = v.essence := List.forall_mem_cons.2 ⟨rfl, h⟩
      exact fun b hb c hc => (hfirst b hb).symm.trans (hfirst c hc)
    · exact fun h v hv => h a List.mem_cons_self v (List.mem_cons_of_mem a hv)

theorem allSame_perm (hvs : ∀ v ∈ vs, v.hasFloat = false) (hperm : vs.Perm ws) :
    allSame ws = allSame vs := by
  have hws : ∀ v ∈ ws, v.hasFloat = false := fun v hv => hvs v (hperm.mem_iff.2 hv)
  rw [Bool.eq_iff_iff, allSame_iff hvs, allSame_iff hws]
  simp only [hperm.mem_iff]

end Value

/-! ### The operations -/

section
variable {host : Host} {level : Level} {exprs vs : List Value} {m m' : Machine}

/-- With a number of arguments that it takes, a primitive runs on their values. -/
theorem Builtin.call_primitive {p : Primitive} (hexprs : evalAll level.eval exprs m = (.ok vs, m'))
    (haccepts : p.arity.accepts vs.length = true) :
    (Builtin.primitive p).call host level exprs m = runPrimitive host level p vs m' := by
  have hcall : (Builtin.primitive p).call host level exprs = (do
      let operands ← evalAll level.eval exprs
      Run.ofExcept (p.arity.check operands.length)
      runPrimitive host level p operands) := rfl
  rw [hcall, Run.bind_of_ok hexprs, Arity.check_eq_ok_iff.2 haccepts]
  rfl

/-- What an operation answers on the values of its arguments, of which there has to be one. -/
theorem call_equality (hexprs : evalAll level.eval exprs m = (.ok vs, m')) (hne : vs ≠ [])
    (negated lenient : Bool) :
    (Builtin.primitive (.equality negated lenient)).call host level exprs m =
      (.ok (.bool (!(lenient && vs.any Value.isNil) && (Value.allSame vs != negated))), m') := by
  have haccepts : (Primitive.equality negated lenient).arity.accepts vs.length = true :=
    decide_eq_true (List.length_pos_iff.2 hne)
  rw [Builtin.call_primitive hexprs haccepts, runPrimitive]
  rfl

/-- Equality is an equivalence of values without floats, so the operations say whether all operands
are equal or not, in any order of them; with a nil among them the lenient ones are false. -/
theorem equality_equivalence (hexprs : evalAll level.eval exprs m = (.ok vs, m')) (hne : vs ≠ [])
    (hvs : ∀ v ∈ vs, v.hasFloat = false) :
    let answer (negated lenient : Bool) (exprs : List Value) :=
      (Builtin.primitive (.equality negated lenient)).call host level exprs
    (Equivalence fun a b : { v : Value // v.hasFloat = false } => (a.val == b.val) = true) ∧
      (∃ r, answer false false exprs m = (.ok (.bool r), m') ∧
        (r = true ↔ ∀ a ∈ vs, ∀ b ∈ vs, (a == b) = true) ∧
        answer true false exprs m = (.ok (.bool !r), m')) ∧
      ((∃ v ∈ vs, v.isNil = true) → ∀ negated,
        answer negated true exprs m = (.ok (.bool false), m')) ∧
      ((∀ v ∈ vs, v.isNil = false) → ∀ negated,
        answer negated true exprs m = answer negated false exprs m) ∧
      ∀ exprs' ws n n', evalAll level.eval exprs' n = (.ok ws, n') → vs.Perm ws →
        ∀ negated lenient, (answer negated lenient exprs' n).1 =
          (answer negated lenient exprs m).1 := by
  intro answer
  have hanswer (negated lenient : Bool) : answer negated lenient exprs m = _ :=
    call_equality hexprs hne negated lenient
  refine ⟨⟨fun a => ?_, fun {a b} hab => ?_, fun {a b c} hab hbc => ?_⟩,
    ⟨Value.allSame vs, ?_, Value.allSame_iff hvs, ?_⟩, fun hnil negated => ?_,
    fun hnil negated => ?_, fun exprs' ws n n' hexprs' hperm negated lenient => ?_⟩
  · exact (Value.beq_iff_essence a.2 a).2 rfl
  · rw [Value.beq_iff_essence a.2] at hab
    exact (Value.beq_iff_essence b.2 a).2 hab.symm
  · rw [Value.beq_iff_essence a.2] at hab
    rw [Value.beq_iff_essence b.2] at hbc
    exact (Value.beq_iff_essence a.2 c).2 (hab.trans hbc)
  · exact (hanswer false false).trans (by simp)
  · exact (hanswer true false).trans (by simp)
  · have hany : vs.any Value.isNil = true := List.any_eq_true.2 hnil
    exact (hanswer negated true).trans (by simp [hany])
  · have hany : vs.any Value.isNil = false := by
      rw [List.any_eq_false]
      exact fun v hv => by simp [hnil v hv]
    exact (hanswer negated true).trans ((hanswer negated false).trans (by simp [hany])).symm
  · have hne' : ws ≠ [] := fun h => hne (List.perm_nil.1 (h ▸ hperm))
    have hanswer' : answer negated lenient exprs' n = _ :=
      call_equality hexprs' hne' negated lenient
    rw [Value.allSame_perm hvs hperm, ← hperm.any_eq] at hanswer'
    exact (congrArg Prod.fst hanswer').trans (congrArg Prod.fst (hanswer negated lenient)).symm

end

/-- `(1 'x)` twice and `(1 nil)` behind it are not all equal, and neither are they with `(1 nil)` in
between. -/
theorem equality_equivalence_lists :
    let same : Value := .list [.int 1, .quote (.ofName "x")]
    let other : Value := .list [.int 1, .nil]
    ((Builtin.primitive (.equality true false)).call Host.Sample.host (.top Host.Sample.host)
      ([same, other, same].map .quote) (.global default)).1 = .ok (.bool true) := by
  intro same other
  have hexprs : evalAll (Level.top Host.Sample.host).eval ([same, same, other].map .quote)
      (.global default) = (.ok [same, same, other], { Machine.global default with deepest := 1 }) :=
    rfl
  have hexprs' : evalAll (Level.top Host.Sample.host).eval ([same, other, same].map .quote)
      (.global default) = (.ok [same, other, same], { Machine.global default with deepest := 1 }) :=
    rfl
  have hvs : ∀ v ∈ [same, same, other], v.hasFloat = false := by
    simp [same, other, Value.ofName, Value.hasFloat, Value.anyHasFloat]
  have hperm : [same, same, other].Perm [same, other, same] := .cons _ (.swap _ _ _)
  have hne : [same, same, other] ≠ [] := List.cons_ne_nil _ _
  have hequal := @equality_equivalence Host.Sample.host _ _ _ _ _ hexprs hne hvs
  exact (hequal.2.2.2.2 _ _ _ _ hexprs' hperm true false).trans
    (congrArg Prod.fst (call_equality hexprs hne true false))

end HostLisp
