import CommandFiles.Value.Plain
import Mathlib

/-! # Whole numbers as doubles

A finite double is a rational number, and it is taken for a whole number exactly if it is one. A
whole number below `2^53` is a double as it is: its digits are moved to the left until they fill a
mantissa, and nothing is lost where that mantissa is multiplied by one, negated, packed into bits
and taken apart again. -/
namespace CommandFiles.Number

/-! ## Doubles as rational numbers -/

/-- A number with a sign. -/
def signed {α : Type} [Neg α] (negative : Bool) (a : α) : α := if negative then -a else a

/-- The rational number that a finite double is. -/
def Binary.value? : Binary → Option ℚ
  | .finite negative m e => some (signed negative ((m : ℚ) * 2 ^ e))
  | _ => none

variable {n m : Nat} {e : Int} {negative : Bool} {b : Binary}

theorem cast_eq_mul_two_zpow (k : Nat) : (n : ℚ) = m * 2 ^ (k : Int) ↔ n = m * 2 ^ k := by
  rw [zpow_natCast]
  exact_mod_cast Iff.rfl

theorem cast_eq_mul_two_zpow_neg (k : Nat) : (n : ℚ) = m * 2 ^ (-(k : Int)) ↔ n * 2 ^ k = m := by
  rw [zpow_neg, zpow_natCast, ← div_eq_mul_inv, eq_div_iff (by positivity)]
  exact_mod_cast Iff.rfl

/-- A finite double is a whole number of some size and is taken for it, or it is none and is taken
for none. -/
theorem toInt?_finite (m : Nat) (e : Int) :
    (∃ n : Nat, (n : ℚ) = m * 2 ^ e ∧
      ∀ negative, (Binary.finite negative m e).toInt? = some (signed negative (n : Int))) ∨
    (∀ n : Nat, (n : ℚ) ≠ m * 2 ^ e) ∧
      ∀ negative, (Binary.finite negative m e).toInt? = none := by
  by_cases he : 0 ≤ e
  · obtain ⟨k, rfl⟩ := Int.eq_ofNat_of_zero_le he
    refine .inl ⟨m * 2 ^ k, (cast_eq_mul_two_zpow k).mpr rfl, fun negative => ?_⟩
    simp [Binary.toInt?, signed]
  obtain ⟨k, rfl⟩ : ∃ k : Nat, e = -(k : Int) := ⟨(-e).toNat, by omega⟩
  have hk : (- -(k : Int)).toNat = k := by omega
  by_cases hm : m % 2 ^ k = 0
  · have hsize := Nat.div_mul_cancel (Nat.dvd_of_mod_eq_zero hm)
    refine .inl ⟨m / 2 ^ k, (cast_eq_mul_two_zpow_neg k).mpr hsize, fun negative => ?_⟩
    simp only [Binary.toInt?, if_neg he, hk, Nat.pow_eq, if_pos hm]
    rfl
  · refine .inr ⟨fun n hn => hm ?_, fun negative => ?_⟩
    · rw [← (cast_eq_mul_two_zpow_neg k).mp hn, Nat.mul_mod_left]
    · simp only [Binary.toInt?, if_neg he, hk, Nat.pow_eq, if_neg hm]
      rfl

theorem signed_cast (negative : Bool) (n : Nat) :
    ((signed negative (n : Int) : Int) : ℚ) = signed negative (n : ℚ) := by
  cases negative <;> simp [signed]

theorem abs_signed (negative : Bool) (q : ℚ) : |signed negative q| = |q| := by
  cases negative <;> simp [signed]

/-- **A finite double is taken for a whole number exactly if it is that number.** -/
theorem toInt?_eq_some_iff {z : Int} : b.toInt? = some z ↔ b.value? = some (z : ℚ) := by
  cases b with
  | notANumber => simp [Binary.toInt?, Binary.value?]
  | infinite negative => simp [Binary.toInt?, Binary.value?]
  | finite negative m e =>
    have hsize : (0 : ℚ) ≤ m * 2 ^ e := by positivity
    rw [Binary.value?, Option.some.injEq]
    rcases toInt?_finite m e with ⟨n, hn, hint⟩ | ⟨hnone, hint⟩
    · rw [hint, Option.some.injEq, ← hn, ← signed_cast, Int.cast_inj]
    · rw [hint]
      refine iff_of_false (fun h => by cases h) fun hz => hnone z.natAbs ?_
      rw [Nat.cast_natAbs, Int.cast_abs, ← hz, abs_signed, abs_of_nonneg hsize]

/-! ## Mantissas of full width -/

open Float.Model (Format)
open Float.Model.UnpackedFloat hiding round normalize

/-- Whether a mantissa has 53 bits and stands at an exponent of the doubles with such a one. -/
structure IsFull (m : Nat) (e : Int) : Prop where
  low : 2 ^ 52 ≤ m
  high : m < 2 ^ 53
  least : -1074 ≤ e
  most : e ≤ 971

namespace IsFull

theorem pos (h : IsFull m e) : 0 < m := lt_of_lt_of_le (by decide) h.low

theorem log2_mul (h : IsFull m e) (k : Nat) : (m * 2 ^ k).log2 = 52 + k := by
  have hpos : m * 2 ^ k ≠ 0 := Nat.mul_ne_zero h.pos.ne' (by positivity)
  rw [Nat.log2_eq_iff hpos, pow_add, show 52 + k + 1 = 53 + k by omega, pow_add]
  exact ⟨Nat.mul_le_mul_right _ h.low, Nat.mul_lt_mul_of_pos_right h.high (by positivity)⟩

theorem log2_eq (h : IsFull m e) : m.log2 = 52 := by
  simpa using h.log2_mul 0

/-- The bits of a double are its sign, its exponent and its mantissa without the first bit. -/
theorem pack_eq (h : IsFull m e) (s : Sign) :
    pack Format.binary64 (.finite s m e h.pos) =
      packComponents Format.binary64 s (BitVec.ofNat 11 (e + 1075).toNat) (BitVec.ofNat 52 m) := by
  have hbiased : (e + Format.binary64.exponentBias + Format.binary64.mantissaBitsWithoutImplicit) =
      e + 1075 := by
    change e + 1023 + 52 = e + 1075
    omega
  have hmost := h.most
  have hfits : ¬ 2 ^ Format.binary64.exponentBits ≤ (e + 1075).toNat + 1 := by
    change ¬ 2 ^ 11 ≤ (e + 1075).toNat + 1
    omega
  simp only [pack, hbiased]
  rw [if_neg hfits, if_pos (by rw [h.log2_eq]; rfl)]

theorem toNat_implicit (f : BitVec 52) : (1#1 ++ f).toNat = 2 ^ 52 + f.toNat := by
  rw [BitVec.toNat_append, ← Nat.shiftLeft_add_eq_or_of_lt f.isLt, Nat.shiftLeft_eq]
  rfl

/-- The bits of a double as a number. -/
theorem toNat_packComponents (s : Sign) (exponent : BitVec 11) (fraction : BitVec 52) :
    (packComponents Format.binary64 s exponent fraction).toNat =
      s.toBitVec.toNat * 2 ^ 63 + exponent.toNat * 2 ^ 52 + fraction.toNat := by
  rw [packComponents, BitVec.toNat_append, ← Nat.shiftLeft_add_eq_or_of_lt fraction.isLt,
    BitVec.toNat_append, ← Nat.shiftLeft_add_eq_or_of_lt exponent.isLt, Nat.shiftLeft_eq,
    Nat.shiftLeft_eq]
  omega

/-- A double that is taken apart has the sign, the mantissa and the exponent it was made of. -/
theorem unpack_pack (h : IsFull m e) (s : Sign) :
    unpack Format.binary64 (pack Format.binary64 (.finite s m e h.pos)) = .finite s m e h.pos := by
  obtain ⟨hlow, hhigh, hleast, hmost⟩ := h
  have hexponent : (BitVec.ofNat 11 (e + 1075).toNat).toNat = (e + 1075).toNat := by
    rw [BitVec.toNat_ofNat]
    omega
  have hall : BitVec.ofNat 11 (e + 1075).toNat ≠ -1#11 := fun hall => by
    rw [hall] at hexponent
    change 2047 = _ at hexponent
    omega
  have hnone : BitVec.ofNat 11 (e + 1075).toNat ≠ 0#11 := fun hnone => by
    rw [hnone] at hexponent
    change 0 = _ at hexponent
    omega
  have hmantissa : (1#1 ++ BitVec.ofNat 52 m).toNat = m := by
    rw [toNat_implicit, BitVec.toNat_ofNat]
    omega
  have hunbiased : ((e + 1075).toNat : Int) -
      (Format.binary64.exponentBias + Format.binary64.mantissaBitsWithoutImplicit) = e := by
    change ((e + 1075).toNat : Int) - (1023 + 52) = e
    omega
  rw [pack_eq ⟨hlow, hhigh, hleast, hmost⟩, unpack]
  simp only [unpackMantissa_packComponents, unpackExponent_packComponents,
    unpackSign_packComponents, Sign.ofBitVec_toBitVec, if_neg hall, if_neg hnone, hexponent,
    hmantissa, hunbiased]

theorem toNat_pack (h : IsFull m e) (s : Sign) :
    (pack Format.binary64 (.finite s m e h.pos)).toNat =
      s.toBitVec.toNat * 2 ^ 63 + (e + 1075).toNat * 2 ^ 52 + (m - 2 ^ 52) := by
  obtain ⟨hlow, hhigh, hleast, hmost⟩ := h
  rw [pack_eq ⟨hlow, hhigh, hleast, hmost⟩, toNat_packComponents, BitVec.toNat_ofNat,
    BitVec.toNat_ofNat]
  omega

/-- A double with a mantissa of full width is taken apart by its bits as it was made. -/
theorem ofFloat_eq (h : IsFull m e) (s : Sign) {x : Float}
    (hx : x.toModel = .pack (.finite s m e h.pos)) :
    Binary.ofFloat x = .finite (s == .negative) m e := by
  have hbits : x.toBits.toNat = (pack Format.binary64 (.finite s m e h.pos)).toNat := by
    rw [Float.toBits, hx]
    rfl
  rw [h.toNat_pack] at hbits
  obtain ⟨hlow, hhigh, hleast, hmost⟩ := h
  have hs := s.toBitVec.isLt
  unfold Binary.ofFloat
  simp only [hbits, Nat.pow_eq]
  have hbiased : (s.toBitVec.toNat * 2 ^ 63 + (e + 1075).toNat * 2 ^ 52 + (m - 2 ^ 52)) / 2 ^ 52 %
      2048 = (e + 1075).toNat := by omega
  have hfraction : (s.toBitVec.toNat * 2 ^ 63 + (e + 1075).toNat * 2 ^ 52 + (m - 2 ^ 52)) %
      2 ^ 52 = m - 2 ^ 52 := by omega
  have hsign : (s.toBitVec.toNat * 2 ^ 63 + (e + 1075).toNat * 2 ^ 52 + (m - 2 ^ 52)) /
      2 ^ 63 = s.toBitVec.toNat := by omega
  rw [hbiased, hfraction, hsign, if_neg (by omega), if_neg (by omega)]
  have hm : m - 2 ^ 52 + 2 ^ 52 = m := by omega
  have he : ((e + 1075).toNat : Int) - 1075 = e := by omega
  rw [hm, he]
  cases s <;> rfl

/-! ## Rounding what needs no rounding -/

theorem shiftRight_exact (m k : Nat) :
    (ExtendedMantissa.mk (m * 2 ^ k) false false) >>> k = ExtendedMantissa.mk m false false := by
  induction k generalizing m with
  | zero => rw [pow_zero, Nat.mul_one]; rfl
  | succ k ih =>
    have hmore : m * 2 ^ (k + 1) = m * 2 * 2 ^ k := by rw [pow_succ, Nat.mul_assoc, Nat.mul_comm 2]
    change ((ExtendedMantissa.mk (m * 2 ^ (k + 1)) false false) >>> k).shiftRightOne = _
    rw [hmore, ih]
    simp [ExtendedMantissa.shiftRightOne]

theorem targetExponent_eq (h : IsFull m e) (k : Nat) :
    Format.binary64.targetExponent (Float.Model.totalExponent (m * 2 ^ k) (e - k)) = e := by
  have hleast := h.least
  rw [Float.Model.totalExponent, h.log2_mul]
  change max (((52 + k : Nat) : Int) + 1 + (e - k) - 53) (-1074) = e
  omega

theorem shiftToTargetExponent_eq (h : IsFull m e) (k : Nat) :
    shiftToTargetExponent Format.binary64 (m * 2 ^ k) (e - k) .exact =
      (ExtendedMantissa.mk m false false, e) := by
  have hshift : (e - (e - k)).toNat = k := by omega
  rw [shiftToTargetExponent, h.targetExponent_eq k, shiftToExponent, hshift]
  exact Prod.ext (shiftRight_exact m k) (by omega)

/-- A mantissa with zeros behind it is cut to its full width and no more. -/
theorem roundWithAccuracy_eq (h : IsFull m e) (s : Sign) (k : Nat) :
    roundWithAccuracy Format.binary64 s (m * 2 ^ k) (e - k) .exact = .finite s m e h.pos := by
  have hagain : shiftToTargetExponent Format.binary64 m e .exact =
      (ExtendedMantissa.mk m false false, e) := by
    simpa using h.shiftToTargetExponent_eq 0
  have hexact : (ExtendedMantissa.mk m false false).roundedMantissa = m := rfl
  simp only [roundWithAccuracy, h.shiftToTargetExponent_eq k, hexact, hagain, dif_neg h.pos.ne']

end IsFull

/-- The digits of a whole number fill a mantissa once they are moved to the left. -/
theorem isFull_of_pos (hn : 0 < n) (h : n < 2 ^ 53) :
    IsFull (n * 2 ^ (52 - n.log2)) (-(52 - n.log2 : Nat)) := by
  have hlog := (Nat.log2_lt hn.ne').mpr h
  obtain ⟨hlow, hhigh⟩ := (Nat.log2_eq_iff hn.ne').mp rfl
  have hpow : 2 ^ n.log2 * 2 ^ (52 - n.log2) = 2 ^ 52 := by
    rw [← pow_add]
    congr 1
    omega
  refine ⟨?_, ?_, by omega, by omega⟩
  · rw [← hpow]
    exact Nat.mul_le_mul_right _ hlow
  · calc n * 2 ^ (52 - n.log2) < 2 ^ (n.log2 + 1) * 2 ^ (52 - n.log2) :=
        Nat.mul_lt_mul_of_pos_right hhigh (by positivity)
      _ = 2 ^ 53 := by rw [pow_succ, Nat.mul_right_comm, hpow]; rfl

theorem round_eq (hn : 0 < n) (h : n < 2 ^ 53) (s : Sign) :
    Float.Model.UnpackedFloat.round Format.binary64 s n 0 =
      .finite s (n * 2 ^ (52 - n.log2)) (-(52 - n.log2 : Nat)) (isFull_of_pos hn h).pos := by
  have hlog := (Nat.log2_lt hn.ne').mpr h
  have htarget : Format.binary64.targetExponent (Float.Model.totalExponent n 0) =
      -(52 - n.log2 : Nat) := by
    rw [Float.Model.totalExponent]
    change max ((n.log2 : Int) + 1 + 0 - 53) (-1074) = _
    omega
  have hshift : (0 - -((52 - n.log2 : Nat) : Int)).toNat = 52 - n.log2 := by omega
  rw [Float.Model.UnpackedFloat.round, htarget, decreaseExponent, hshift, Nat.shiftLeft_eq]
  have hround := (isFull_of_pos hn h).roundWithAccuracy_eq s 0
  simpa using hround

/-! ## Doubles of whole numbers -/

/-- A word that holds a whole number becomes the double of that number. -/
theorem unpack_toFloat (hn : 0 < n) (h : n < 2 ^ 53) :
    n.toUInt64.toFloat.toModel.unpack = .finite .positive (n * 2 ^ (52 - n.log2))
      (-(52 - n.log2 : Nat)) (isFull_of_pos hn h).pos := by
  have hword : n.toUInt64.toNat = n := by
    rw [Nat.toUInt64, UInt64.toNat_ofNat']
    omega
  have hpositive : compare (n : Int) 0 = .gt := Int.compare_eq_gt.mpr (by omega)
  have hnormal : Float.Model.UnpackedFloat.normalize Format.binary64 n.toUInt64.toNat 0 .positive =
      .finite .positive (n * 2 ^ (52 - n.log2)) (-(52 - n.log2 : Nat))
        (isFull_of_pos hn h).pos := by
    rw [hword, Float.Model.UnpackedFloat.normalize, hpositive]
    exact round_eq hn h .positive
  change unpack Format.binary64 (pack Format.binary64
    (Float.Model.UnpackedFloat.normalize Format.binary64 n.toUInt64.toNat 0 .positive)) = _
  rw [hnormal, (isFull_of_pos hn h).unpack_pack]

/-- Multiplying by one changes nothing. -/
theorem toModel_ofScientific (hn : 0 < n) (h : n < 2 ^ 53) :
    (Float.ofScientific n false 0).toModel = .pack (.finite .positive (n * 2 ^ (52 - n.log2))
      (-(52 - n.log2 : Nat)) (isFull_of_pos hn h).pos) := by
  have hone : (Float.ofBits 0x3FF0000000000000).toModel.unpack =
      .finite .positive (2 ^ 52) (-52) (by decide) := rfl
  rw [Float.ofScientific, dif_pos ⟨h, by decide⟩]
  change Float.Model.pack (mul Format.binary64 n.toUInt64.toFloat.toModel.unpack
    (Float.ofBits 0x3FF0000000000000).toModel.unpack) = _
  rw [unpack_toFloat hn h, hone]
  exact congrArg Float.Model.pack ((isFull_of_pos hn h).roundWithAccuracy_eq .positive 52)

theorem toModel_ofNat (hn : 0 < n) (h : n < 2 ^ 53) :
    (ofNat n).toModel = .pack (.finite .positive (n * 2 ^ (52 - n.log2))
      (-(52 - n.log2 : Nat)) (isFull_of_pos hn h).pos) := by
  have hdigits : (Nat.toDigits 10 n).length ≤ 16 :=
    (Nat.length_toDigits_le_iff (by decide) (by decide)).mpr (h.trans (by norm_num))
  rw [ofNat, scaled, if_neg hn.ne', if_neg (by omega), if_neg (by omega), if_pos (by decide)]
  exact toModel_ofScientific hn h

theorem toModel_neg_ofNat (hn : 0 < n) (h : n < 2 ^ 53) :
    (-ofNat n).toModel = .pack (.finite .negative (n * 2 ^ (52 - n.log2))
      (-(52 - n.log2 : Nat)) (isFull_of_pos hn h).pos) := by
  change Float.Model.pack (neg (ofNat n).toModel.unpack) = _
  rw [toModel_ofNat hn h]
  exact congrArg (Float.Model.pack ∘ neg) ((isFull_of_pos hn h).unpack_pack .positive)

/-- The value of a whole number whose digits were moved to the left is that number. -/
theorem value?_moved (negative : Bool) (n k : Nat) :
    (Binary.finite negative (n * 2 ^ k) (-(k : Int))).value? = some (signed negative (n : ℚ)) := by
  rw [Binary.value?, ← (cast_eq_mul_two_zpow_neg k).mpr rfl]

end CommandFiles.Number

namespace CommandFiles.Value

open Number

/-- **The double nearest to a whole number below `2^53` is that number.** -/
theorem value?_intToFloat {z : Int} (h : z.natAbs < 2 ^ 53) :
    (Binary.ofFloat (intToFloat z)).value? = some (z : ℚ) := by
  rcases Nat.eq_zero_or_pos z.natAbs with hzero | hpos
  · obtain rfl := Int.natAbs_eq_zero.mp hzero
    have hbits : Binary.ofFloat (intToFloat 0) = .finite false 0 (-1074) := by decide +kernel
    simp [hbits, Binary.value?, signed]
  have hfull := isFull_of_pos hpos h
  unfold intToFloat
  split
  next hneg =>
    rw [hfull.ofFloat_eq .negative (toModel_neg_ofNat hpos h), value?_moved, Nat.cast_natAbs,
      abs_of_neg hneg]
    change some (-((-z : Int) : ℚ)) = some (z : ℚ)
    rw [Int.cast_neg, neg_neg]
  next hneg =>
    rw [hfull.ofFloat_eq .positive (toModel_ofNat hpos h), value?_moved, Nat.cast_natAbs,
      abs_of_nonneg (by omega)]
    rfl

/-! ## Numbers as plain data -/

/-- Whether a double is not a whole number, or one that is too large for plain data to hold it as
one. -/
def StaysDouble (x : Float) : Prop :=
  ∃ q, (Binary.ofFloat x).value? = some q ∧ ((∀ z : Int, q ≠ z) ∨ 9007199254740992 ≤ |q|)

theorem le_abs_cast_iff (z : Int) : (9007199254740992 : ℚ) ≤ |(z : ℚ)| ↔ ¬ z.natAbs < 2 ^ 53 := by
  rw [← Int.cast_abs, Int.abs_eq_natAbs, Int.cast_natCast, not_lt]
  exact_mod_cast Iff.rfl

theorem StaysDouble.not_whole {x : Float} (h : StaysDouble x) {z : Int}
    (hz : (Binary.ofFloat x).value? = some (z : ℚ)) : ¬ z.natAbs < 2 ^ 53 := by
  obtain ⟨q, hq, hstays⟩ := h
  obtain rfl := Option.some.inj (hq.symm.trans hz)
  rcases hstays with hnone | hlarge
  · exact absurd rfl (hnone z)
  · exact (le_abs_cast_iff z).mp hlarge

/-- A number is nothing as plain data if it is not finite, and else it becomes a whole number or
stays as it is. -/
theorem numberJson_cases (x : Float) :
    (Binary.ofFloat x).value? = none ∧ numberJson x = .null ∨
    (∃ z : Int, (Binary.ofFloat x).value? = some (z : ℚ) ∧ z.natAbs < 2 ^ 53 ∧
      numberJson x = .int z) ∨
    StaysDouble x ∧ numberJson x = .float x := by
  unfold numberJson StaysDouble
  cases Binary.ofFloat x with
  | notANumber => exact .inl ⟨rfl, rfl⟩
  | infinite negative => exact .inl ⟨rfl, rfl⟩
  | finite negative m e =>
    right
    cases hint : (Binary.finite negative m e).toInt? with
    | none =>
      refine .inr ⟨⟨_, rfl, .inl fun z hz => ?_⟩, by simp only [hint]⟩
      have hsome : (Binary.finite negative m e).toInt? = some z :=
        toInt?_eq_some_iff.mpr (congrArg some hz)
      rw [hint] at hsome
      cases hsome
    | some z =>
      have hz := toInt?_eq_some_iff.mp hint
      by_cases hsmall : z.natAbs < 2 ^ 53
      · exact .inl ⟨z, hz, hsmall, by simp only [hint]; exact if_pos hsmall⟩
      · exact .inr ⟨⟨z, hz, .inr ((le_abs_cast_iff z).mpr hsmall)⟩,
          by simp only [hint]; exact if_neg hsmall⟩

theorem numberJson_of_whole {x : Float} {z : Int} (h : (Binary.ofFloat x).value? = some (z : ℚ))
    (hz : z.natAbs < 2 ^ 53) : numberJson x = .int z := by
  rcases numberJson_cases x with ⟨hnone, -⟩ | ⟨w, hw, -, hint⟩ | ⟨hstays, -⟩
  · rw [h] at hnone
    cases hnone
  · rw [h, Option.some.injEq, Int.cast_inj] at hw
    rw [hint, hw]
  · exact absurd hz (hstays.not_whole h)

theorem numberJson_of_stays {x : Float} (h : StaysDouble x) : numberJson x = .float x := by
  obtain ⟨q, hq, -⟩ := id h
  rcases numberJson_cases x with ⟨hnone, -⟩ | ⟨z, hz, hsmall, -⟩ | ⟨-, hfloat⟩
  · rw [hq] at hnone
    cases hnone
  · exact absurd hsmall (h.not_whole hz)
  · exact hfloat

end CommandFiles.Value
