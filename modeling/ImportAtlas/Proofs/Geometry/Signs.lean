-- SUMMARY: Signs of single-precision numbers: what stays above zero under the arithmetic, and counts.
import ImportAtlas.Geometry.Single
import Mathlib

/-! # Signs

An operation on single-precision numbers unpacks its operands, computes with mantissa and exponent,
rounds and packs the result. Two facts about signs come out of that. What is not negative stays so under
sums and products, so it is never below zero times a number. And a count of one or more is positive: its
mantissa is shifted until it has 24 digits, no more and no less, and such a number comes out of packing
and unpacking as it was. -/

namespace ImportAtlas.Single

open Float.Model (Format UnpackedFloat totalExponent)
open Float.Model.UnpackedFloat

/-! ## Packing -/

theorem finite_congr {sign : Sign} {m m' : Nat} {e e' : Int} {hm : 0 < m} (h : m = m') (he : e = e') :
    UnpackedFloat.finite sign m e hm = .finite sign m' e' (h ▸ hm) := by
  subst h he
  rfl

/-- A number with 24 digits and an exponent in range comes out of packing as it was. -/
theorem unpack_pack_of_full {sign : Sign} {m : Nat} {e : Int} (hm : 0 < m) (hlow : 2 ^ 23 ≤ m)
    (hhigh : m < 2 ^ 24) (he : -149 ≤ e) (he' : e ≤ 104) :
    unpack .binary32 (pack .binary32 (.finite sign m e hm)) = .finite sign m e hm := by
  have hlog : m.log2 = 23 := by
    rw [Nat.log2_eq_iff (by omega)]
    exact ⟨hlow, hhigh⟩
  have hbias : Format.exponentBias .binary32 = 127 := rfl
  obtain ⟨b, hb⟩ : ∃ b : Nat, e + 150 = b := ⟨(e + 150).toNat, by omega⟩
  have hbiased : (e + ((Format.exponentBias .binary32 : Nat) : Int) + ((23 : Nat) : Int)).toNat = b := by
    omega
  have hpack : pack .binary32 (.finite sign m e hm) =
      packComponents .binary32 sign (BitVec.ofNat 8 b) (BitVec.ofNat 23 m) := by
    simp only [pack, hbiased, hlog]
    rw [if_neg (by omega)]
    rfl
  -- neither the exponent of what is infinite or not a number, nor that of what is below 24 digits
  have hones : BitVec.ofNat 8 b ≠ -1#8 := by
    intro h
    have htoNat : b % 2 ^ 8 = 255 := congrArg BitVec.toNat h
    omega
  have hzero : BitVec.ofNat 8 b ≠ 0#8 := by
    intro h
    have htoNat : b % 2 ^ 8 = 0 := congrArg BitVec.toNat h
    omega
  rw [hpack, unpack]
  simp only [unpackSign_packComponents, unpackExponent_packComponents, unpackMantissa_packComponents,
    Sign.ofBitVec_toBitVec]
  rw [if_neg hones, if_neg hzero]
  apply finite_congr
  · have hrest : m % 2 ^ 23 < 2 ^ 23 := Nat.mod_lt _ (by decide)
    rw [BitVec.toNat_append, BitVec.toNat_ofNat, BitVec.toNat_ofNat,
      ← Nat.shiftLeft_add_eq_or_of_lt hrest, Nat.shiftLeft_eq]
    omega
  · rw [BitVec.toNat_ofNat, hbias]
    omega

/-! ## Numbers that are not negative -/

/-- What is not below zero: a positive number, a zero of either sign, or not a number. -/
inductive Nonneg : UnpackedFloat → Prop where
  | notANumber : Nonneg .notANumber
  | infinity : Nonneg (.infinity .positive)
  | zero (sign : Sign) : Nonneg (.zero sign)
  | finite {m : Nat} {e : Int} (hm : 0 < m) : Nonneg (.finite .positive m e hm)

namespace Nonneg

theorem packComponents (e : BitVec 8) (m : BitVec 23) :
    Nonneg (unpack .binary32 (packComponents .binary32 .positive e m)) := by
  unfold unpack
  simp only [unpackSign_packComponents, Sign.ofBitVec_toBitVec]
  split
  · split
    · exact .infinity
    · exact .notANumber
  · split
    · split
      · exact .zero _
      · exact .finite _
    · exact .finite _

theorem pack {u : UnpackedFloat} (h : Nonneg u) : Nonneg (unpack .binary32 (pack .binary32 u)) := by
  cases h with
  | notANumber => exact packComponents _ _
  | infinity => exact packComponents _ _
  | zero sign =>
    rw [Float.Model.UnpackedFloat.pack, unpack_packedZero]
    exact .zero sign
  | finite hm =>
    rw [Float.Model.UnpackedFloat.pack]
    split
    · exact packComponents _ _
    · split <;> exact packComponents _ _

theorem roundWithAccuracy (m : Nat) (e : Int) (accuracy : Accuracy) :
    Nonneg (roundWithAccuracy .binary32 .positive m e accuracy) := by
  unfold Float.Model.UnpackedFloat.roundWithAccuracy
  dsimp only
  split
  · exact .zero _
  · exact .finite _

theorem normalize {m : Int} (hm : 0 ≤ m) (e : Int) (sign : Sign) :
    Nonneg (normalize .binary32 m e sign) := by
  unfold Float.Model.UnpackedFloat.normalize
  split
  next h => exact absurd (Int.compare_eq_lt.1 h) (by omega)
  next => exact .zero _
  next => exact roundWithAccuracy _ _ _

theorem add {u v : UnpackedFloat} (hu : Nonneg u) (hv : Nonneg v) : Nonneg (add .binary32 u v) := by
  cases hu with
  | notANumber => exact .notANumber
  | infinity =>
    cases hv with
    | notANumber => exact .notANumber
    | infinity => exact .infinity
    | zero sign => exact .infinity
    | finite hm => exact .infinity
  | zero sign =>
    cases hv with
    | notANumber => exact .notANumber
    | infinity => exact .infinity
    | zero sign' => cases sign <;> cases sign' <;> exact .zero _
    | finite hm => exact .finite hm
  | finite hm =>
    cases hv with
    | notANumber => exact .notANumber
    | infinity => exact .infinity
    | zero sign => exact .finite hm
    | finite hm' => exact normalize (Int.add_nonneg (Int.natCast_nonneg _) (Int.natCast_nonneg _)) _ _

theorem mul {u v : UnpackedFloat} (hu : Nonneg u) (hv : Nonneg v) : Nonneg (mul .binary32 u v) := by
  cases hu with
  | notANumber => exact .notANumber
  | infinity =>
    cases hv with
    | notANumber => exact .notANumber
    | infinity => exact .infinity
    | zero sign => exact .notANumber
    | finite hm => exact .infinity
  | zero sign =>
    cases hv with
    | notANumber => exact .notANumber
    | infinity => exact .notANumber
    | zero sign' => exact .zero _
    | finite hm => exact .zero _
  | finite hm =>
    cases hv with
    | notANumber => exact .notANumber
    | infinity => exact .infinity
    | zero sign => exact .zero _
    | finite hm' => exact roundWithAccuracy _ _ _

end Nonneg

/-- What is not a number, or is zero. -/
inductive Void : UnpackedFloat → Prop where
  | notANumber : Void .notANumber
  | zero (sign : Sign) : Void (.zero sign)

namespace Void

theorem pack {u : UnpackedFloat} (h : Void u) : Void (unpack .binary32 (pack .binary32 u)) := by
  cases h with
  | notANumber =>
    rw [Float.Model.UnpackedFloat.pack, unpack_packedNaN]
    exact .notANumber
  | zero sign =>
    rw [Float.Model.UnpackedFloat.pack, unpack_packedZero]
    exact .zero sign

/-- Zero times anything. -/
theorem zero_mul (sign : Sign) (u : UnpackedFloat) : Void (mul .binary32 (.zero sign) u) := by
  cases u with
  | notANumber => exact .notANumber
  | infinity sign' => exact .notANumber
  | zero sign' => exact .zero _
  | finite sign' m e hm => exact .zero _

end Void

theorem Nonneg.lt_eq_false {u v : UnpackedFloat} (hu : Nonneg u) (hv : Void v) : u.lt v = false := by
  cases hv with
  | notANumber => cases hu <;> rfl
  | zero sign => cases hu <;> rfl

/-! ## Counts -/

/-- A positive number with 24 digits, the last of which is that of `2 ^ low` or a higher one. -/
inductive Full (low : Int) : UnpackedFloat → Prop where
  | infinity : Full low (.infinity .positive)
  | finite {m : Nat} {e : Int} (hm : 0 < m) (hlow : 2 ^ 23 ≤ m) (hhigh : m < 2 ^ 24) (he : low ≤ e) :
      Full low (.finite .positive m e hm)

theorem mantissa_shiftRight (em : ExtendedMantissa) (n : Nat) :
    (em >>> n).mantissa = em.mantissa / 2 ^ n := by
  have hrepeat : em >>> n = n.repeat ExtendedMantissa.shiftRightOne em := rfl
  rw [hrepeat]
  induction n with
  | zero => rw [Nat.repeat, Nat.pow_zero, Nat.div_one]
  | succ n ih =>
    rw [Nat.repeat, ExtendedMantissa.shiftRightOne, ih rfl, Nat.pow_succ, Nat.div_div_eq_div_mul]

theorem mantissa_ofMantissaAndAccuracy (m : Nat) (accuracy : Accuracy) :
    (ExtendedMantissa.ofMantissaAndAccuracy m accuracy).mantissa = m := by
  cases accuracy with
  | exact => rfl
  | inexact o => cases o <;> rfl

theorem le_roundedMantissa (em : ExtendedMantissa) : em.mantissa ≤ em.roundedMantissa := by
  obtain ⟨m, roundBit, stickyBit⟩ := em
  cases roundBit <;> cases stickyBit <;>
    simp [ExtendedMantissa.roundedMantissa, ExtendedMantissa.accuracy, Accuracy.roundToNearestEven]

/-- A number with 24 digits or more is shifted until it has 24 digits. -/
theorem shiftToTargetExponent_of_long {m : Nat} (hm : 2 ^ 23 ≤ m) {e : Int} (he : -149 ≤ e)
    (accuracy : Accuracy) :
    2 ^ 23 ≤ (shiftToTargetExponent .binary32 m e accuracy).1.mantissa ∧
      (shiftToTargetExponent .binary32 m e accuracy).1.mantissa < 2 ^ 24 ∧
      e ≤ (shiftToTargetExponent .binary32 m e accuracy).2 := by
  have hlog : 23 ≤ m.log2 := (Nat.le_log2 (by omega)).2 hm
  have hbits : Format.mantissaBits .binary32 = 24 := rfl
  have hmin : Format.minExponent .binary32 = -149 := rfl
  have hamount : (Format.targetExponent .binary32 (totalExponent m e) - e).toNat = m.log2 - 23 := by
    rw [Format.targetExponent, totalExponent, hbits, hmin]
    omega
  have hpos : 0 < 2 ^ (m.log2 - 23) := Nat.pow_pos (by decide)
  rw [shiftToTargetExponent, shiftToExponent, hamount]
  refine ⟨?_, ?_, Int.le_add_of_nonneg_right (Int.natCast_nonneg _)⟩
  · rw [mantissa_shiftRight, mantissa_ofMantissaAndAccuracy, Nat.le_div_iff_mul_le hpos, ← Nat.pow_add]
    exact (Nat.le_log2 (by omega)).1 (by omega)
  · rw [mantissa_shiftRight, mantissa_ofMantissaAndAccuracy, Nat.div_lt_iff_lt_mul hpos, ← Nat.pow_add]
    exact (Nat.log2_lt (by omega)).1 (by omega)

namespace Full

variable {low : Int}

theorem pack (hlow : -149 ≤ low) {u : UnpackedFloat} (h : Full low u) :
    Full low (unpack .binary32 (pack .binary32 u)) := by
  cases h with
  | infinity => exact .infinity
  | @finite m e hm hlow' hhigh he =>
    by_cases he' : e ≤ 104
    · rw [unpack_pack_of_full hm hlow' hhigh (by omega) he']
      exact .finite hm hlow' hhigh he
    · have hover : 2 ^ 8 ≤ (e + ((127 : Nat) : Int) + ((23 : Nat) : Int)).toNat + 1 := by omega
      rw [Float.Model.UnpackedFloat.pack, if_pos]
      · exact .infinity
      · exact hover

/-- Rounding shifts twice, as the first result may have been rounded up to 25 digits. -/
theorem roundWithAccuracy (hlow : -149 ≤ low) {m : Nat} (hm : 2 ^ 23 ≤ m) {e : Int} (he : low ≤ e)
    (accuracy : Accuracy) :
    Full low (roundWithAccuracy .binary32 .positive m e accuracy) := by
  have he' := Int.le_trans hlow he
  obtain ⟨hfirst, -, hexponent⟩ := shiftToTargetExponent_of_long hm he' accuracy
  have hrounded := Nat.le_trans hfirst (le_roundedMantissa _)
  obtain ⟨hlow', hhigh, hexponent'⟩ :=
    shiftToTargetExponent_of_long hrounded (Int.le_trans he' hexponent) .exact
  unfold Float.Model.UnpackedFloat.roundWithAccuracy
  dsimp only
  rw [dif_neg (by omega)]
  exact .finite _ hlow' hhigh (by omega)

/-- A number from 1 on, rounded. -/
theorem round {n : Nat} (hn : 0 < n) : Full (-23) (round .binary32 .positive n 0) := by
  have hbits : Format.mantissaBits .binary32 = 24 := rfl
  have hmin : Format.minExponent .binary32 = -149 := rfl
  have hamount : (0 - Format.targetExponent .binary32 (totalExponent n 0)).toNat = 23 - n.log2 := by
    rw [Format.targetExponent, totalExponent, hbits, hmin]
    omega
  have hlong : 2 ^ 23 ≤ n <<< (23 - n.log2) := by
    have hself : 2 ^ n.log2 ≤ n := (Nat.le_log2 (by omega)).1 (Nat.le_refl _)
    calc 2 ^ 23 ≤ 2 ^ (n.log2 + (23 - n.log2)) := Nat.pow_le_pow_right (by decide) (by omega)
      _ = 2 ^ n.log2 * 2 ^ (23 - n.log2) := Nat.pow_add ..
      _ ≤ n * 2 ^ (23 - n.log2) := Nat.mul_le_mul_right _ hself
      _ = n <<< (23 - n.log2) := (Nat.shiftLeft_eq ..).symm
  rw [Float.Model.UnpackedFloat.round, decreaseExponent]
  dsimp only
  rw [hamount]
  exact roundWithAccuracy (by decide) hlong (by omega) _

theorem normalize {n : Nat} (hn : 0 < n) : Full (-23) (normalize .binary32 n 0 .positive) := by
  have hcompare : compare (n : Int) 0 = .gt := Int.compare_eq_gt.2 (by omega)
  rw [Float.Model.UnpackedFloat.normalize, hcompare]
  exact round hn

theorem mul_finite (hlow : -149 ≤ low) {m m' : Nat} {e e' : Int} (hm : 0 < m) (hm' : 0 < m')
    (hlong : 2 ^ 23 ≤ m * m') (he : low ≤ e + e') :
    Full low (mul .binary32 (.finite .positive m e hm) (.finite .positive m' e' hm')) :=
  roundWithAccuracy hlow hlong he .exact

theorem mul {low' : Int} (hlow : -149 ≤ low + low') {u v : UnpackedFloat} (hu : Full low u)
    (hv : Full low' v) : Full (low + low') (mul .binary32 u v) := by
  cases hu with
  | infinity => cases hv <;> exact .infinity
  | @finite m e hm hlong hhigh he =>
    cases hv with
    | infinity => exact .infinity
    | @finite m' e' hm' hlong' hhigh' he' =>
      exact mul_finite hlow hm hm' (Nat.le_trans hlong (Nat.le_mul_of_pos_right m hm')) (by omega)

theorem le_zero_eq_false {u : UnpackedFloat} (h : Full low u) : u.le (.zero .positive) = false := by
  cases h <;> rfl

end Full

/-! ## Single precision -/

section
variable {x y : Float32}

theorem nonneg_add (hx : Nonneg x.toModel.unpack) (hy : Nonneg y.toModel.unpack) :
    Nonneg (x + y).toModel.unpack :=
  (hx.add hy).pack

theorem nonneg_mul (hx : Nonneg x.toModel.unpack) (hy : Nonneg y.toModel.unpack) :
    Nonneg (x * y).toModel.unpack :=
  (hx.mul hy).pack

theorem exists_zero_of_beq (hx : x == 0) : ∃ sign, x.toModel.unpack = .zero sign := by
  have hbeq : x.toModel.unpack.beq (.zero .positive) = true := hx
  obtain ⟨-, -, heq | ⟨-, hpositive⟩ | ⟨hnegative, -⟩⟩ := (beq_iff_ne_notANumber_and_eq _ _).1 hbeq
  · exact ⟨_, heq⟩
  · simp at hpositive
  · exact ⟨_, hnegative⟩

/-- What is not below zero is not below zero times a number. -/
theorem not_lt_zero_mul (hx : Nonneg x.toModel.unpack) (hy : y == 0) (d : Float32) : ¬ x < y * d := by
  obtain ⟨sign, hzero⟩ := exists_zero_of_beq hy
  have hvoid : Void (y * d).toModel.unpack := by
    have hmul := (Void.zero_mul sign d.toModel.unpack).pack
    rw [← hzero] at hmul
    exact hmul
  intro h
  have hlt : x.toModel.unpack.lt (y * d).toModel.unpack = true := of_decide_eq_true h
  rw [hx.lt_eq_false hvoid] at hlt
  exact Bool.noConfusion hlt

end

theorem unpack_half : (0.5 : Float32).toModel.unpack = .finite .positive 0x800000 (-24) (by decide) := rfl

theorem unpack_one : (1.0 : Float32).toModel.unpack = .finite .positive 0x800000 (-23) (by decide) := rfl

theorem unpack_two : (2.0 : Float32).toModel.unpack = .finite .positive 0x800000 (-22) (by decide) := rfl

theorem nonneg_half {x : Float32} (hx : Nonneg x.toModel.unpack) :
    Nonneg (x * 0.5).toModel.unpack := by
  apply nonneg_mul hx
  rw [unpack_half]
  exact .finite _

theorem nonneg_add_two {x : Float32} (hx : Nonneg x.toModel.unpack) :
    Nonneg (x + 2.0).toModel.unpack := by
  apply nonneg_add hx
  rw [unpack_two]
  exact .finite _

/-- The larger of a number and 1 is not negative, also if the number is none. -/
theorem nonneg_max_one (x : Float32) : Nonneg (max x 1.0).toModel.unpack := by
  have hone : Nonneg (1.0 : Float32).toModel.unpack := by
    rw [unpack_one]
    exact .finite _
  rw [max]
  split
  next => exact hone
  next =>
    split
    next hnan => exact absurd hnan (by decide)
    next =>
      split
      next => exact hone
      next hlt =>
        have hlt' : x.toModel.unpack.lt (1.0 : Float32).toModel.unpack ≠ true :=
          fun h => hlt (decide_eq_true h)
        rw [unpack_one] at hlt'
        cases hunpack : x.toModel.unpack with
        | notANumber => exact .notANumber
        | zero sign => exact .zero sign
        | infinity sign =>
          cases sign with
          | positive => exact .infinity
          | negative =>
            rw [hunpack] at hlt'
            exact absurd rfl hlt'
        | finite sign m e hm =>
          cases sign with
          | positive => exact .finite hm
          | negative =>
            rw [hunpack] at hlt'
            exact absurd rfl hlt'

/-- Small numbers are converted directly and then multiplied by 1, others are converted as decimals. -/
theorem full_ofNat {n : Nat} (hn : 0 < n) : Full (-23 + -23) (Float32.ofNat n).toModel.unpack := by
  by_cases hsmall : n < 2 ^ 23 ∧ 0 ≤ 10
  · have hof : Float32.ofNat n = n.toUInt64.toFloat32 * Float32.ofBits 0x3F800000 := dif_pos hsmall
    have hnat : n.toUInt64.toNat = n := UInt64.toNat_ofNat_of_lt' (Nat.lt_trans hsmall.1 (by decide))
    have hconvert : Full (-23) n.toUInt64.toFloat32.toModel.unpack := by
      have hnormalize := (Full.normalize hn).pack (by decide)
      rw [← hnat] at hnormalize
      exact hnormalize
    have hone : Full (-23) (Float32.ofBits 0x3F800000).toModel.unpack :=
      .finite (by decide) (by decide) (by decide) (Int.le_refl _)
    rw [hof]
    exact (hconvert.mul (by decide) hone).pack (by decide)
  · have hof : Float32.ofNat n = .ofModel (.ofScientific n 0) := dif_neg hsmall
    have hlog : ¬ (0 : Int) < -((2 ^ 8 : Int) + n.log2) := by omega
    have hbits : Format.mantissaBits .binary32 = 24 := rfl
    rw [hof]
    refine Full.pack (by decide) ?_
    rw [ofScientific, dif_neg (by omega), if_neg (by decide), if_neg hlog, if_pos (Int.le_refl 0)]
    refine Full.mul_finite (by decide) _ _ ?_ ?_
    · rw [hbits, Nat.shiftLeft_eq, Int.toNat_zero]
      omega
    · rw [hbits]
      decide

/-- A count of one or more is above zero. -/
theorem not_ofNat_le_zero {n : Nat} (hn : 0 < n) : ¬ Float32.ofNat n ≤ 0 := by
  intro h
  have hle : (Float32.ofNat n).toModel.unpack.le (.zero .positive) = true := of_decide_eq_true h
  rw [(full_ofNat hn).le_zero_eq_false] at hle
  exact Bool.noConfusion hle

end ImportAtlas.Single
