import HostLisp.Eval.Arithmetic
import Mathlib

/-!
# The order of floats

Comparing two floats gives one of three answers or, if one of them is no number, none at all.  So
apart from that case exactly one of less, greater and equal holds.  An integer always widens to a
number.
-/

namespace HostLisp

open Float.Model

/-! ### Comparing -/

namespace Float

/-- How two floats compare, if both are numbers. -/
def compare? (x y : Float) : Option Ordering := x.toModel.unpack.compare y.toModel.unpack

theorem lt_iff_compare? {x y : Float} : x < y ↔ compare? x y = some .lt := by
  show decide ((compare? x y == some .lt) = true) = true ↔ _
  rw [decide_eq_true_iff, beq_iff_eq]

theorem beq_iff_compare? {x y : Float} : (x == y) = true ↔ compare? x y = some .eq := by
  show (compare? x y == some .eq) = true ↔ _
  exact beq_iff_eq

/-- Exchanging two floats turns their order round. -/
theorem compare?_swap (x y : Float) : compare? y x = (compare? x y).map Ordering.swap := by
  -- How floats are packed plays no part, only what they are: finite, zero, infinite or no number.
  unfold compare?
  generalize x.toModel.unpack = u
  generalize y.toModel.unpack = v
  cases u with
  | notANumber => cases v <;> rfl
  | infinity s =>
    cases v with
    | infinity t => cases s <;> cases t <;> rfl
    | _ => cases s <;> rfl
  | zero s =>
    cases v with
    | infinity t => cases t <;> rfl
    | finite t n e hn => cases t <;> rfl
    | _ => rfl
  | finite s m d hm =>
    cases v with
    | infinity t => cases t <;> rfl
    | notANumber => rfl
    | zero t => cases s <;> rfl
    | finite t n e hn =>
      cases s <;> cases t <;>
        simp [UnpackedFloat.compare, Ordering.swap_then, Int.compare_swap, Nat.compare_swap]

theorem compare?_isSome {x y : Float} (hx : x.isNaN = false) (hy : y.isNaN = false) :
    (compare? x y).isSome = true := by
  change x.toModel.unpack.isNaN = false at hx
  change y.toModel.unpack.isNaN = false at hy
  unfold compare?
  generalize x.toModel.unpack = u at hx ⊢
  generalize y.toModel.unpack = v at hy ⊢
  cases u with
  | notANumber => cases hx
  | infinity s => cases s <;> cases v <;> first | rfl | cases hy
  | zero s =>
    cases v with
    | notANumber => cases hy
    | infinity t => cases t <;> rfl
    | finite t n e hn => cases t <;> rfl
    | zero t => rfl
  | finite s m d hm =>
    cases v with
    | notANumber => cases hy
    | infinity t => cases t <;> rfl
    | finite t n e hn => cases s <;> cases t <;> rfl
    | zero t => cases s <;> rfl

/-- No float is both less and greater than another. -/
theorem not_lt_of_lt {x y : Float} (h : x < y) : ¬ y < x := by
  rw [lt_iff_compare?] at h
  rw [lt_iff_compare?, compare?_swap, h]
  simp

/-- A float is not less than one that it equals. -/
theorem not_lt_of_beq {x y : Float} (h : (x == y) = true) : ¬ x < y := by
  rw [beq_iff_compare?] at h
  rw [lt_iff_compare?, h]
  simp

theorem beq_swap (x y : Float) : (x == y) = (y == x) := by
  rw [Bool.eq_iff_iff, beq_iff_compare?, beq_iff_compare?, compare?_swap x y]
  cases compare? x y with
  | none => simp
  | some o => cases o <;> simp

/-- Of two numbers that differ one is less. -/
theorem beq_of_not_lt {x y : Float} (hx : x.isNaN = false) (hy : y.isNaN = false)
    (hlt : ¬ x < y) (hgt : ¬ y < x) : (x == y) = true := by
  obtain ⟨o, ho⟩ := Option.isSome_iff_exists.1 (compare?_isSome hx hy)
  rw [lt_iff_compare?, ho] at hlt
  rw [lt_iff_compare?, compare?_swap, ho] at hgt
  rw [beq_iff_compare?, ho]
  cases o with
  | lt => exact absurd rfl hlt
  | gt => exact absurd rfl hgt
  | eq => rfl

/-! ### Widening -/

theorem isNaN_roundWithAccuracy (spec : Format) (s : UnpackedFloat.Sign) (m : Nat) (e : Int)
    (a : UnpackedFloat.Accuracy) :
    (UnpackedFloat.roundWithAccuracy spec s m e a).isNaN = false := by
  unfold UnpackedFloat.roundWithAccuracy
  dsimp only
  split <;> rfl

theorem isNaN_ofInt (spec : Format) (n : Int) : (UnpackedFloat.ofInt spec n).isNaN = false := by
  unfold UnpackedFloat.ofInt UnpackedFloat.normalize
  split
  · exact isNaN_roundWithAccuracy ..
  · rfl
  · exact isNaN_roundWithAccuracy ..

/-- Only an exponent of nothing but ones, in front of a mantissa that is not zero, is no number. -/
theorem isNaN_unpack_packComponents (s : UnpackedFloat.Sign)
    {e : BitVec Format.binary64.exponentBits}
    {m : BitVec Format.binary64.mantissaBitsWithoutImplicit} (h : e ≠ -1#_ ∨ m = 0#_) :
    (UnpackedFloat.unpack Format.binary64
      (UnpackedFloat.packComponents Format.binary64 s e m)).isNaN = false := by
  unfold UnpackedFloat.unpack
  simp only [UnpackedFloat.unpackExponent_packComponents,
    UnpackedFloat.unpackMantissa_packComponents]
  split
  · next he =>
    -- The exponent is all ones, so it is the mantissa that is zero, and the float is infinite.
    rcases h with h | h
    · exact absurd he h
    · rw [if_pos h]
      rfl
  · split
    · split <;> rfl
    · rfl

/-- What is a number stays one when it is packed. -/
theorem isNaN_pack {u : UnpackedFloat} (h : u.isNaN = false) :
    (Float.Model.pack u).unpack.isNaN = false := by
  show (UnpackedFloat.unpack Format.binary64
    (UnpackedFloat.pack Format.binary64 u)).isNaN = false
  cases u with
  | notANumber => cases h
  | infinity s => exact isNaN_unpack_packComponents s (.inr rfl)
  | zero s => exact isNaN_unpack_packComponents s (.inr rfl)
  | finite s m e hm =>
    simp only [UnpackedFloat.pack]
    split
    · exact isNaN_unpack_packComponents s (.inr rfl)
    · next hexp =>
      -- The exponent is in range: below all ones for a normal number, zero for a subnormal one.
      split
      · refine isNaN_unpack_packComponents s (.inl fun he => hexp ?_)
        have := congrArg BitVec.toNat he
        simp only [BitVec.neg_one_eq_allOnes, BitVec.toNat_allOnes, BitVec.toNat_ofNat] at this
        omega
      · exact isNaN_unpack_packComponents s (.inl (by decide))

theorem isNaN_widen (n : Int64) : (widen n).isNaN = false :=
  isNaN_pack (isNaN_ofInt Format.binary64 n.toInt)

end Float

end HostLisp
