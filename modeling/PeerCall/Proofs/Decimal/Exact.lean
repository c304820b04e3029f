import Mathlib
import PeerCall.Decimal.Double

/-!
# Doubles as rational numbers

A double that is finite stands for a rational number. The fields that its bits are read by are those
of the standard library's own reading, so that number is the same by either. Whether it is an
integer, and which one, is seen from the fields alone.
-/

namespace PeerCall.Decimal

open Float.Model (Format UnpackedFloat)
open Float.Model.UnpackedFloat (Sign)

/-- The rational number that a double stands for. An infinite one has none, nor has what is no
number. -/
def rational? (f : Float) : Option ℚ :=
  match f.toModel.unpack with
  | .zero _ => some 0
  | .finite sign m e _ => some (sign.apply m * 2 ^ e)
  | .infinity _ | .notANumber => none

namespace Double

/-! ## The fields -/

/-- Whether a sign is that of a negative number. -/
def isNegative : Sign → Bool
  | .negative => true
  | .positive => false

/-- The fields of a double as the standard library reads them. -/
def ofUnpacked : UnpackedFloat → Double
  | .notANumber => .nan
  | .infinity sign => .infinite (isNegative sign)
  | .zero sign => .finite (isNegative sign) 0 (-1074)
  | .finite sign m e _ => .finite (isNegative sign) m e

/-- The sign of a double is its first bit. -/
theorem isNegative_ofBitVec (b : BitVec 1) : isNegative (.ofBitVec b) = decide (b.toNat = 1) := by
  revert b
  decide

/-- The significand of a normal double has a one in front of its fraction. -/
theorem toNat_one_append {n : ℕ} (fraction : BitVec n) :
    (1#1 ++ fraction).toNat = 2 ^ n + fraction.toNat := by
  rw [BitVec.toNat_append, ← Nat.shiftLeft_add_eq_or_of_lt fraction.isLt]
  simp [Nat.shiftLeft_eq]

/-- The fields are read from the bits as the standard library reads them. -/
theorem ofBits_eq (bits : BitVec Format.binary64.numBits) :
    ofBits bits.toNat = ofUnpacked (.unpack Format.binary64 bits) := by
  have hsign : bits.toNat / Nat.pow 2 63 % 2 = (UnpackedFloat.unpackSign bits).toNat := by
    rw [UnpackedFloat.unpackSign, BitVec.toNat_cast, BitVec.extractLsb_toNat,
      Nat.shiftRight_eq_div_pow]
    rfl
  have hexponent : bits.toNat / Nat.pow 2 52 % Nat.pow 2 11 =
      (UnpackedFloat.unpackExponent bits).toNat := by
    rw [UnpackedFloat.unpackExponent, BitVec.toNat_cast, BitVec.extractLsb_toNat,
      Nat.shiftRight_eq_div_pow]
    rfl
  have hfraction : bits.toNat % Nat.pow 2 52 = (UnpackedFloat.unpackMantissa bits).toNat := by
    rw [UnpackedFloat.unpackMantissa, BitVec.toNat_cast, BitVec.extractLsb_toNat,
      Nat.shiftRight_zero]
    rfl
  have hones : UnpackedFloat.unpackExponent bits = -1#11 ↔
      (UnpackedFloat.unpackExponent bits).toNat = 2047 := BitVec.toNat_inj.symm
  have hzeros : UnpackedFloat.unpackExponent bits = 0#11 ↔
      (UnpackedFloat.unpackExponent bits).toNat = 0 := BitVec.toNat_inj.symm
  have hempty : UnpackedFloat.unpackMantissa bits = 0#52 ↔
      (UnpackedFloat.unpackMantissa bits).toNat = 0 := BitVec.toNat_inj.symm
  simp only [ofBits, UnpackedFloat.unpack, hsign, hexponent, hfraction]
  -- The largest exponent marks what is not finite, the smallest what is not normal.
  by_cases hlargest : UnpackedFloat.unpackExponent bits = -1#11
  · rw [if_pos hlargest, if_pos (hones.mp hlargest)]
    by_cases hwhole : UnpackedFloat.unpackMantissa bits = 0#52
    · rw [if_pos hwhole, if_pos (hempty.mp hwhole), ofUnpacked, isNegative_ofBitVec]
    · rw [if_neg hwhole, if_neg (mt hempty.mpr hwhole), ofUnpacked]
  rw [if_neg hlargest, if_neg (mt hones.mpr hlargest)]
  by_cases hsmallest : UnpackedFloat.unpackExponent bits = 0#11
  · rw [if_pos hsmallest, if_pos (hzeros.mp hsmallest)]
    by_cases hzero : UnpackedFloat.unpackMantissa bits = 0#52
    · rw [dif_pos hzero, hempty.mp hzero, ofUnpacked, isNegative_ofBitVec]
    · rw [dif_neg hzero, hzeros.mp hsmallest, ofUnpacked, isNegative_ofBitVec]
      rfl
  · rw [if_neg hsmallest, if_neg (mt hzeros.mpr hsmallest), ofUnpacked, isNegative_ofBitVec,
      toNat_one_append]
    rfl

/-- A double has the fields that the standard library reads. -/
theorem ofFloat_eq (f : Float) : ofFloat f = ofUnpacked f.toModel.unpack :=
  ofBits_eq f.toModel.toBits.toBitVec

/-! ## Integer parts -/

/-- With an exponent that is not negative the integer part is the number, -/
theorem wholePart_natCast (m n : ℕ) : wholePart m n = m * 2 ^ n := by
  simp [wholePart]

/-- and with a negative one it is a quotient. -/
theorem wholePart_neg_natCast (m n : ℕ) : wholePart m (-n) = m / 2 ^ n := by
  rcases n.eq_zero_or_pos with rfl | hn
  · simp [wholePart]
  · simp [wholePart, hn.ne']

/-- With an exponent that is not negative nothing comes after the integer part, -/
theorem isWhole_natCast (m n : ℕ) : isWhole m n = true := by
  simp [isWhole]

/-- and with a negative one nothing does if the division leaves no rest. -/
theorem isWhole_neg_natCast_iff {m n : ℕ} : isWhole m (-n) = true ↔ 2 ^ n ∣ m := by
  rcases n.eq_zero_or_pos with rfl | hn
  · simp [isWhole]
  · simp [isWhole, Nat.dvd_iff_mod_eq_zero, hn.ne']

/-- A number with nothing after its integer part is its integer part. -/
theorem wholePart_eq {m : ℕ} {q : ℤ} (hwhole : isWhole m q = true) :
    (wholePart m q : ℚ) = m * 2 ^ q := by
  obtain ⟨n, rfl | rfl⟩ := q.eq_nat_or_neg
  · simp [wholePart_natCast]
  · have hdvd : 2 ^ n ∣ m := isWhole_neg_natCast_iff.mp hwhole
    rw [wholePart_neg_natCast, Nat.cast_div hdvd (by positivity), zpow_neg, zpow_natCast,
      div_eq_mul_inv, Nat.cast_pow, Nat.cast_ofNat]

/-- An integer has nothing after its integer part. -/
theorem isWhole_of_eq {m : ℕ} {q k : ℤ} (h : (m : ℚ) * 2 ^ q = k) : isWhole m q = true := by
  obtain ⟨n, rfl | rfl⟩ := q.eq_nat_or_neg
  · exact isWhole_natCast m n
  · rw [zpow_neg, zpow_natCast, ← div_eq_mul_inv, div_eq_iff (by positivity)] at h
    have hproduct : (m : ℤ) = 2 ^ n * k := by
      rw [mul_comm]
      exact_mod_cast h
    rw [isWhole_neg_natCast_iff, ← Int.natCast_dvd_natCast]
    exact ⟨k, by rw [hproduct, Nat.cast_pow, Nat.cast_ofNat]⟩

end Double

/-! ## Doubles that are integers -/

section Exact

variable {f : Float} {negative : Bool} {m : ℕ} {q n : ℤ}

/-- The rational number of a double by its fields. -/
theorem rational?_eq (f : Float) : rational? f = match Double.ofFloat f with
    | .finite negative m q => some (if negative then -(m * 2 ^ q) else m * 2 ^ q)
    | _ => none := by
  rw [Double.ofFloat_eq, rational?]
  cases f.toModel.unpack with
  | notANumber | infinity => rfl
  | zero sign => cases sign <;> simp [Double.ofUnpacked, Double.isNegative]
  | finite sign => cases sign <;> simp [Double.ofUnpacked, Double.isNegative, Sign.apply]

/-- A double with nothing after its integer part is an integer, -/
theorem rational?_of_isWhole (hf : Double.ofFloat f = .finite negative m q)
    (hwhole : Double.isWhole m q = true) :
    rational? f = some ((if negative then -(Double.wholePart m q : ℤ)
      else Double.wholePart m q : ℤ) : ℚ) := by
  rw [rational?_eq, hf]
  cases negative <;> simp [Double.wholePart_eq hwhole]

/-- and a double that is an integer has nothing after its integer part. -/
theorem exists_isWhole (h : rational? f = some (n : ℚ)) :
    ∃ negative m q, Double.ofFloat f = .finite negative m q ∧ Double.isWhole m q = true := by
  rw [rational?_eq] at h
  split at h
  · next negative m q hf =>
    refine ⟨negative, m, q, hf, ?_⟩
    cases negative with
    | false =>
      have hvalue : (m : ℚ) * 2 ^ q = n := by simpa using h
      exact Double.isWhole_of_eq hvalue
    | true =>
      have hvalue : -((m : ℚ) * 2 ^ q) = n := by simpa using h
      have hopposite : (m : ℚ) * 2 ^ q = (-n : ℤ) := by rw [Int.cast_neg, ← hvalue, neg_neg]
      exact Double.isWhole_of_eq hopposite
  · cases h

/-- An integer as a double is cut to the nearest of the signed 64-bit integers. -/
theorem cutToInt64_eq (h : rational? f = some (n : ℚ)) : cutToInt64 f = clampInt64 n := by
  obtain ⟨negative, m, q, hf, hwhole⟩ := exists_isWhole h
  rw [rational?_of_isWhole hf hwhole, Option.some.injEq, Int.cast_inj] at h
  rw [cutToInt64, hf, ← h]

/-- The nearest of the signed 64-bit integers is one of the bounds or the integer itself. -/
theorem toInt_clampInt64 (n : ℤ) : (clampInt64 n).toInt = max (-2 ^ 63) (min (2 ^ 63 - 1) n) := by
  have hlow : Int64.minValue.toInt = -2 ^ 63 := rfl
  have hhigh : Int64.maxValue.toInt = 2 ^ 63 - 1 := rfl
  rw [clampInt64, hlow, hhigh]
  exact Int64.toInt_ofInt_of_le (by omega) (by omega)

end Exact

end PeerCall.Decimal
