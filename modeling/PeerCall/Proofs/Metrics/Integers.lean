import PeerCall.Metrics.Report
import PeerCall.Proofs.Decimal.Exact

/-!
# Attributes as integers

A number may reach a report in each of three forms. It is read as a signed 64-bit integer if it is
one, whatever its form. Of the integers beyond that range only doubles are read, as the nearest that
there is.
-/

namespace PeerCall.Metrics

/-- The integers that fit into 64 bits with a sign. -/
def IsInt64 (n : ℤ) : Prop := -2 ^ 63 ≤ n ∧ n < 2 ^ 63

instance (n : ℤ) : Decidable (IsInt64 n) :=
  inferInstanceAs (Decidable (-2 ^ 63 ≤ n ∧ n < 2 ^ 63))

/-- The nearest of the integers that fit into 64 bits. -/
def nearestInt64 (n : ℤ) : ℤ := max (-2 ^ 63) (min (2 ^ 63 - 1) n)

/-- A signed 64-bit integer fits. -/
theorem isInt64_toInt (i : Int64) : IsInt64 i.toInt := ⟨i.le_toInt, i.toInt_lt⟩

/-- An integer is the nearest to itself if and only if it fits. -/
theorem nearestInt64_eq_self_iff {n : ℤ} : nearestInt64 n = n ↔ IsInt64 n := by
  unfold nearestInt64 IsInt64
  omega

namespace Value

/-- The number that a value is, exactly. Texts and flags are none. -/
def rational? : Value → Option ℚ
  | .unsigned n => some n.toNat
  | .signed i => some i.toInt
  | .float f => Decimal.rational? f
  | .text _ | .flag _ => none

/-- Whether a value is a double. -/
def isFloat : Value → Bool
  | .float _ => true
  | _ => false

/-- A value is read as an integer if and only if it is one and fits. -/
def ReadsExactly (a : Value) : Prop :=
  ∀ n : ℤ, a.toInt64?.map Int64.toInt = some n ↔ a.rational? = some (n : ℚ) ∧ IsInt64 n

variable {a b : Value} {i : Int64} {n : ℤ}

/-- A value is one integer at most. -/
theorem rational?_unique {m : ℤ} (hm : a.rational? = some (m : ℚ))
    (hn : a.rational? = some (n : ℚ)) : m = n :=
  Int.cast_injective (Option.some.inj (hm.symm.trans hn))

/-! ## The three forms -/

/-- An unsigned integer is read as itself. -/
theorem toInt64?_unsigned_iff {u : UInt64} :
    (unsigned u).toInt64? = some i ↔ i.toInt = u.toNat := by
  have hfits : i.toInt < 2 ^ 63 := i.toInt_lt
  have hpow : Nat.pow 2 63 = 2 ^ 63 := rfl
  rw [toInt64?, hpow, Option.ite_none_right_eq_some, Option.some.injEq, ← Int64.toInt_inj]
  constructor
  · rintro ⟨hlt, hread⟩
    rw [← hread, Int64.toInt_ofNat_of_lt hlt]
  · intro hread
    have hlt : u.toNat < 2 ^ 63 := by omega
    exact ⟨hlt, by rw [hread, Int64.toInt_ofNat_of_lt hlt]⟩

/-- A value that is no double is read as the integer that it is. -/
theorem toInt64?_eq_some_iff_of_not_float (ha : a.isFloat = false) :
    a.toInt64? = some i ↔ a.rational? = some (i.toInt : ℚ) := by
  cases a with
  | unsigned u =>
    have hcast : (u.toNat : ℚ) = i.toInt ↔ (u.toNat : ℤ) = i.toInt := by norm_cast
    rw [toInt64?_unsigned_iff, rational?, Option.some.injEq, hcast, eq_comm]
  | signed j =>
    rw [toInt64?, rational?, Option.some.injEq, Option.some.injEq, Int.cast_inj, Int64.toInt_inj]
  | float => cases ha
  | text | flag => simp [toInt64?, rational?]

/-- A double that is an integer is read as the nearest that fits. -/
theorem toInt64?_float_iff {f : Float} :
    (float f).toInt64? = some i ↔
      ∃ n : ℤ, (float f).rational? = some (n : ℚ) ∧ i.toInt = nearestInt64 n := by
  simp only [rational?, nearestInt64, ← Decimal.toInt_clampInt64, Int64.toInt_inj]
  constructor
  · intro hread
    rw [toInt64?] at hread
    split at hread
    · next hf =>
      obtain ⟨hwhole, hcut⟩ := Option.ite_none_right_eq_some.mp hread
      have hexact := Decimal.rational?_of_isWhole hf hwhole
      exact ⟨_, hexact, (Option.some.inj hcut).symm.trans (Decimal.cutToInt64_eq hexact)⟩
    · cases hread
  · rintro ⟨n, hexact, rfl⟩
    obtain ⟨negative, m, q, hf, hwhole⟩ := Decimal.exists_isWhole hexact
    rw [← Decimal.cutToInt64_eq hexact, toInt64?, hf]
    exact if_pos hwhole

/-! ## All forms -/

/-- What a value is read as: the integer that it is, if it fits, and the nearest that fits in place
of a double that does not. -/
theorem toInt64?_eq_some_iff : a.toInt64? = some i ↔ ∃ n : ℤ, a.rational? = some (n : ℚ) ∧
    (IsInt64 n ∨ a.isFloat = true) ∧ i.toInt = nearestInt64 n := by
  cases hfloat : a.isFloat with
  | false =>
    rw [toInt64?_eq_some_iff_of_not_float hfloat]
    constructor
    · intro hexact
      have hfits : IsInt64 i.toInt := isInt64_toInt i
      exact ⟨i.toInt, hexact, Or.inl hfits, (nearestInt64_eq_self_iff.mpr hfits).symm⟩
    · rintro ⟨n, hexact, hfits | hfalse, hread⟩
      · rwa [hread, nearestInt64_eq_self_iff.mpr hfits]
      · cases hfalse
  | true =>
    cases a with
    | float f => simp only [toInt64?_float_iff, or_true, true_and]
    | _ => cases hfloat

/-- What a value that is an integer is read as. -/
theorem toInt64?_of_exact (ha : a.rational? = some (n : ℚ)) :
    a.toInt64?.map Int64.toInt =
      if IsInt64 n ∨ a.isFloat = true then some (nearestInt64 n) else none := by
  have hread (i : Int64) :
      a.toInt64? = some i ↔ (IsInt64 n ∨ a.isFloat = true) ∧ i.toInt = nearestInt64 n := by
    rw [toInt64?_eq_some_iff]
    constructor
    · rintro ⟨m, hm, h⟩
      rwa [rational?_unique ha hm]
    · exact fun h => ⟨n, ha, h⟩
  split
  · next hreads =>
    have hnearest : (Decimal.clampInt64 n).toInt = nearestInt64 n := Decimal.toInt_clampInt64 n
    rw [(hread _).mpr ⟨hreads, hnearest⟩, Option.map_some, hnearest]
  · next hreads =>
    rw [Option.map_eq_none_iff, Option.eq_none_iff_forall_ne_some]
    exact fun i hi => hreads ((hread i).mp hi).1

/-- A value is read exactly unless it is a double and an integer that does not fit. -/
theorem readsExactly_iff :
    a.ReadsExactly ↔ ∀ n : ℤ, a.rational? = some (n : ℚ) → a.isFloat = true → IsInt64 n := by
  constructor
  · intro hexactly n ha hfloat
    have hread : a.toInt64?.map Int64.toInt = some (nearestInt64 n) := by
      rw [toInt64?_of_exact ha, if_pos (Or.inr hfloat)]
    exact nearestInt64_eq_self_iff.mp (rational?_unique ((hexactly _).mp hread).1 ha)
  · intro hfits n
    constructor
    · intro hread
      obtain ⟨i, hi, rfl⟩ := Option.map_eq_some_iff.mp hread
      obtain ⟨n, ha, hreads, hnearest⟩ := toInt64?_eq_some_iff.mp hi
      have hn : IsInt64 n := hreads.elim (fun h => h) (hfits n ha)
      rw [hnearest, nearestInt64_eq_self_iff.mpr hn]
      exact ⟨ha, hn⟩
    · rintro ⟨ha, hn⟩
      rw [toInt64?_of_exact ha, if_pos (Or.inl hn), nearestInt64_eq_self_iff.mpr hn]

/-- An integer is read alike in two forms if it fits, and else if both are doubles or none is. -/
theorem toInt64?_eq_iff (ha : a.rational? = some (n : ℚ)) (hb : b.rational? = some (n : ℚ)) :
    a.toInt64? = b.toInt64? ↔ IsInt64 n ∨ a.isFloat = b.isFloat := by
  have hinjective : Function.Injective Int64.toInt := fun _ _ => Int64.toInt_inj.mp
  rw [← (Option.map_injective hinjective).eq_iff, toInt64?_of_exact ha, toInt64?_of_exact hb]
  by_cases hn : IsInt64 n <;> cases a.isFloat <;> cases b.isFloat <;> simp [hn]

/-- A value is read as an integer if it is one, exactly if it fits; one that does not fit is read as
the nearest that does if it is a double, and else not at all. So a value is read exactly unless it
is a double and an integer that does not fit, and two forms of an integer are read alike if it
fits, and otherwise if both or neither are doubles. -/
theorem integers_exact_iff (a : Value) :
    (∀ i, a.toInt64? = some i ↔ ∃ n : ℤ, a.rational? = some (n : ℚ) ∧
      (IsInt64 n ∧ i.toInt = n ∨
        a.isFloat = true ∧ (n < -2 ^ 63 ∧ i = Int64.minValue ∨ 2 ^ 63 ≤ n ∧ i = Int64.maxValue))) ∧
    (a.ReadsExactly ↔ ∀ n : ℤ, a.rational? = some (n : ℚ) → a.isFloat = true → IsInt64 n) ∧
    ∀ (b : Value) (n : ℤ), a.rational? = some (n : ℚ) → b.rational? = some (n : ℚ) →
      (a.toInt64? = b.toInt64? ↔ IsInt64 n ∨ a.isFloat = b.isFloat) := by
  refine ⟨fun i => ?_, readsExactly_iff, fun b n => toInt64?_eq_iff⟩
  have hlow : Int64.minValue.toInt = -2 ^ 63 := rfl
  have hhigh : Int64.maxValue.toInt = 2 ^ 63 - 1 := rfl
  rw [toInt64?_eq_some_iff]
  refine exists_congr fun n => and_congr_right fun _ => ?_
  rw [← Int64.toInt_inj, ← Int64.toInt_inj, hlow, hhigh, nearestInt64, IsInt64]
  cases a.isFloat <;> simp only [Bool.false_eq_true, false_and, true_and, or_false, or_true]
  all_goals omega

/-- The least of the integers that fit, as a double and as a signed integer. -/
theorem integers_exact_least :
    let a := float (-9223372036854775808)
    let b := signed Int64.minValue
    a.rational? = some ((-2 ^ 63 : ℤ) : ℚ) ∧ b.rational? = some ((-2 ^ 63 : ℤ) : ℚ) ∧
      a.toInt64? = b.toInt64? ∧ a.ReadsExactly := by
  intro a b
  have hunpack : (-9223372036854775808 : Float).toModel.unpack =
      .finite .negative (2 ^ 52) 11 (by decide) := rfl
  have ha : a.rational? = some ((-2 ^ 63 : ℤ) : ℚ) := by
    simp only [a, rational?, Decimal.rational?, hunpack]
    norm_num [Float.Model.UnpackedFloat.Sign.apply]
  have hb : b.rational? = some ((-2 ^ 63 : ℤ) : ℚ) := rfl
  obtain ⟨-, hexactly, halike⟩ := integers_exact_iff a
  refine ⟨ha, hb, (halike b _ ha hb).mpr (Or.inl (by decide)), hexactly.mpr fun n hn _ => ?_⟩
  rw [rational?_unique hn ha]
  decide

/-- The first integer that does not fit is read as the last that does if it is a double, but not if
it is an unsigned integer. -/
theorem integers_notExact :
    let a := float 9223372036854775808
    let b := unsigned 9223372036854775808
    a.rational? = some ((2 ^ 63 : ℤ) : ℚ) ∧ b.rational? = some ((2 ^ 63 : ℤ) : ℚ) ∧
      ¬a.ReadsExactly ∧ a.toInt64? ≠ b.toInt64? := by
  intro a b
  have hunpack : (9223372036854775808 : Float).toModel.unpack =
      .finite .positive (2 ^ 52) 11 (by decide) := rfl
  have ha : a.rational? = some ((2 ^ 63 : ℤ) : ℚ) := by
    simp only [a, rational?, Decimal.rational?, hunpack]
    norm_num [Float.Model.UnpackedFloat.Sign.apply]
  have hb : b.rational? = some ((2 ^ 63 : ℤ) : ℚ) := by
    have hnat : (9223372036854775808 : UInt64).toNat = 2 ^ 63 := rfl
    simp only [b, rational?, hnat]
    norm_num
  refine ⟨ha, hb, fun hexactly => ?_, fun halike => ?_⟩
  · exact absurd (readsExactly_iff.mp hexactly _ ha rfl) (by decide)
  · exact absurd ((toInt64?_eq_iff ha hb).mp halike) (by decide)

end Value

end PeerCall.Metrics
