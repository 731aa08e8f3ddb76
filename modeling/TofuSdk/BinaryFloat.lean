import Mathlib.Algebra.Order.Round
import Mathlib.Data.Rat.Floor
import Mathlib.Data.Int.Log
import Mathlib.Tactic.Linarith
import Mathlib.Tactic.FieldSimp
import Mathlib.Tactic.NormNum
import Mathlib.Tactic.IntervalCases
import Mathlib.Tactic.Positivity
import Mathlib.Algebra.Order.Field.Power

namespace TofuSdk

/-- A binary interchange format with `ew` exponent bits and `mw` fraction
bits, as its three bit fields. -/
structure BinaryFloat (ew mw : Nat) where
  sign : Bool
  exponent : BitVec ew
  fraction : BitVec mw
deriving DecidableEq, Repr

/-- What a float denotes, with its rounding and its bit pattern forgotten. -/
inductive ExtRat
  | finite (q : Rat)
  | infinite (negative : Bool)
  | nan
deriving DecidableEq, Repr

namespace BinaryFloat

variable {ew mw : Nat}

def bias (ew : Nat) : Int := 2 ^ (ew - 1) - 1

def isFinite (x : BinaryFloat ew mw) : Bool := x.exponent ≠ BitVec.allOnes ew

def isNaN (x : BinaryFloat ew mw) : Bool := !x.isFinite && x.fraction ≠ 0

def significand (x : BinaryFloat ew mw) : Nat :=
  if x.exponent = 0 then x.fraction.toNat else 2 ^ mw + x.fraction.toNat

def scale (x : BinaryFloat ew mw) : Int := max x.exponent.toNat 1 - bias ew - mw

def value (x : BinaryFloat ew mw) : Rat :=
  (if x.sign then -1 else 1) * x.significand * 2 ^ x.scale

def exact (x : BinaryFloat ew mw) : ExtRat :=
  if x.isFinite then .finite x.value else if x.isNaN then .nan else .infinite x.sign

def isIntegral (x : BinaryFloat ew mw) : Bool := x.isFinite && x.value.den == 1

def infinity (sign : Bool) : BinaryFloat ew mw := ⟨sign, BitVec.allOnes ew, 0⟩

def zero : BinaryFloat ew mw := ⟨false, 0, 0⟩

def eq (x y : BinaryFloat ew mw) : Bool :=
  if x.isFinite && y.isFinite then x.value == y.value
  else !x.isNaN && !y.isNaN && x == y

def le (x y : BinaryFloat ew mw) : Bool :=
  if x.isNaN || y.isNaN then false
  else if x.isFinite && y.isFinite then x.value ≤ y.value
  else if x.isFinite then !y.sign
  else if y.isFinite then x.sign
  else x.sign || !y.sign

/-- The cast to an integer type with the given range: truncation toward zero,
saturation at the ends, zero for NaN. -/
def toIntSat (lo hi : Int) (x : BinaryFloat ew mw) : Int :=
  if x.isNaN then 0
  else if x.isFinite then max lo (min hi (x.value.num.tdiv x.value.den))
  else if x.sign then lo else hi

def roundEven (q : Rat) : Int :=
  if q - ⌊q⌋ < 1 / 2 then ⌊q⌋
  else if 1 / 2 < q - ⌊q⌋ then ⌊q⌋ + 1
  else if ⌊q⌋ % 2 = 0 then ⌊q⌋ else ⌊q⌋ + 1

/-- Exponent of the leading bit of a rounded result, not below that of the
smallest normal number. -/
def leading (ew : Nat) (q : Rat) : Int := max (Int.log 2 |q|) (1 - bias ew)

def mantissa (ew mw : Nat) (q : Rat) : Nat := (roundEven (|q| / 2 ^ (leading ew q - mw))).toNat

def packed (ew mw : Nat) (q : Rat) : Nat :=
  (leading ew q + bias ew - 1).toNat * 2 ^ mw + mantissa ew mw q

/-- Round to nearest, ties to even, overflowing to infinity. -/
def ofRat (q : Rat) : BinaryFloat ew mw :=
  if q = 0 then zero
  else if 2 ^ ew - 1 ≤ packed ew mw q / 2 ^ mw then infinity (q < 0)
  else ⟨q < 0, BitVec.ofNat ew (packed ew mw q / 2 ^ mw), BitVec.ofNat mw (packed ew mw q % 2 ^ mw)⟩

def ofInt (n : Int) : BinaryFloat ew mw := ofRat n

def mul (x y : BinaryFloat ew mw) : BinaryFloat ew mw :=
  if x.isFinite && y.isFinite then ofRat (x.value * y.value)
  else if x.isNaN || y.isNaN || x.isFinite && x.value == 0 || y.isFinite && y.value == 0 then
    ⟨false, BitVec.allOnes ew, BitVec.ofNat mw (2 ^ (mw - 1))⟩
  else infinity (x.sign != y.sign)

def cast {ew' mw' : Nat} (x : BinaryFloat ew mw) : BinaryFloat ew' mw' :=
  if x.isFinite then { ofRat x.value with sign := x.sign }
  else if x.isNaN then ⟨x.sign, BitVec.allOnes ew', BitVec.ofNat mw' (2 ^ (mw' - 1))⟩
  else infinity x.sign

theorem roundEven_mem (q : Rat) : roundEven q = ⌊q⌋ ∨ roundEven q = ⌊q⌋ + 1 := by
  unfold roundEven
  split_ifs <;> simp

theorem roundEven_int (n : Int) : roundEven n = n := by
  simp [roundEven]

theorem le_roundEven {n : Int} {q : Rat} (h : (n : Rat) ≤ q) : n ≤ roundEven q := by
  have hn : n ≤ ⌊q⌋ := Int.le_floor.mpr h
  rcases roundEven_mem q with hr | hr <;> omega

theorem roundEven_le {n : Int} {q : Rat} (h : q < n) : roundEven q ≤ n := by
  have hn : ⌊q⌋ < n := Int.floor_lt.mpr h
  rcases roundEven_mem q with hr | hr <;> omega

theorem lt_two_zpow_leading (q : Rat) : |q| < 2 ^ (leading ew q + 1) :=
  (Int.lt_zpow_succ_log_self (by norm_num) |q|).trans_le
    (zpow_le_zpow_right₀ (by norm_num) (by simp [leading]))

theorem two_zpow_leading_le {q : Rat} (hq : q ≠ 0) (h : 1 - bias ew < leading ew q) :
    2 ^ leading ew q ≤ |q| := by
  have he : leading ew q = Int.log 2 |q| := by
    unfold leading at h ⊢
    omega
  rw [he]
  exact Int.zpow_log_le_self (by norm_num) (abs_pos.mpr hq)

theorem mantissa_le (q : Rat) : mantissa ew mw q ≤ 2 ^ (mw + 1) := by
  have hlt : |q| / 2 ^ (leading ew q - mw) < ((2 ^ (mw + 1) : Int) : Rat) := by
    rw [div_lt_iff₀ (by positivity)]
    push_cast
    rw [← zpow_natCast, ← zpow_add₀ (by norm_num),
      show ((mw + 1 : Nat) : Int) + (leading ew q - mw) = leading ew q + 1 by push_cast; ring]
    exact lt_two_zpow_leading q
  exact Int.toNat_le.mpr (by exact_mod_cast roundEven_le hlt)

theorem le_mantissa {q : Rat} (hq : q ≠ 0) (h : 1 - bias ew < leading ew q) :
    2 ^ mw ≤ mantissa ew mw q := by
  have hle : ((2 ^ mw : Int) : Rat) ≤ |q| / 2 ^ (leading ew q - mw) := by
    rw [le_div_iff₀ (by positivity)]
    push_cast
    rw [← zpow_natCast, ← zpow_add₀ (by norm_num),
      show (mw : Int) + (leading ew q - mw) = leading ew q by ring]
    exact two_zpow_leading_le hq h
  have hround : ((2 ^ mw : Nat) : Int) ≤ roundEven (|q| / 2 ^ (leading ew q - mw)) := by
    exact_mod_cast le_roundEven hle
  unfold mantissa
  omega

/-- A result that does not overflow denotes its rounded mantissa: neither the
carry into the exponent nor the subnormal range changes the value. -/
theorem value_ofRat {q : Rat} (hq : q ≠ 0) (h : packed ew mw q / 2 ^ mw < 2 ^ ew - 1) :
    (ofRat q : BinaryFloat ew mw).value =
      (if q < 0 then -1 else 1) * mantissa ew mw q * 2 ^ (leading ew q - mw) := by
  have hpos : 0 < 2 ^ mw := by positivity
  have hlead : 1 - bias ew ≤ leading ew q := le_max_right _ _
  have hm := @mantissa_le ew mw q
  have hm' : 1 - bias ew < leading ew q → 2 ^ mw ≤ mantissa ew mw q := le_mantissa hq
  have hew : packed ew mw q / 2 ^ mw < 2 ^ ew := h.trans_le (Nat.sub_le _ _)
  obtain ⟨E, hE⟩ : ∃ E : Nat, leading ew q + bias ew - 1 = E :=
    ⟨_, (Int.toNat_of_nonneg (by omega)).symm⟩
  have hdiv : packed ew mw q / 2 ^ mw = E + mantissa ew mw q / 2 ^ mw := by
    rw [packed, hE, Int.toNat_natCast, Nat.add_comm, Nat.add_mul_div_right _ _ hpos, Nat.add_comm]
  have hmod : packed ew mw q % 2 ^ mw = mantissa ew mw q % 2 ^ mw := by
    rw [packed, Nat.add_comm, Nat.add_mul_mod_self_right]
  have hzero : BitVec.ofNat ew (packed ew mw q / 2 ^ mw) = 0 ↔ packed ew mw q / 2 ^ mw = 0 := by
    rw [← BitVec.toNat_inj, BitVec.toNat_ofNat, Nat.mod_eq_of_lt hew]
    rfl
  rw [ofRat, if_neg hq, if_neg (not_le.mpr h)]
  simp only [value, significand, scale, decide_eq_true_eq, BitVec.toNat_ofNat, hzero,
    Nat.mod_eq_of_lt hew, Nat.mod_eq_of_lt (Nat.mod_lt (packed ew mw q) hpos)]
  rw [hdiv, hmod, mul_assoc, mul_assoc]
  congr 1
  have hsplit := Nat.div_add_mod (mantissa ew mw q) (2 ^ mw)
  have hrlt : mantissa ew mw q % 2 ^ mw < 2 ^ mw := Nat.mod_lt _ hpos
  generalize mantissa ew mw q % 2 ^ mw = r at *
  have ht : mantissa ew mw q / 2 ^ mw < 3 := by
    rw [Nat.div_lt_iff_lt_mul hpos]
    rw [Nat.pow_succ] at hm
    omega
  generalize mantissa ew mw q / 2 ^ mw = t at *
  generalize mantissa ew mw q = m at *
  interval_cases t
  · -- subnormal: the exponent field is zero
    have hE0 : E = 0 := by
      by_contra hne
      have := hm' (by omega)
      omega
    subst hE0
    have hm0 : m = r := by omega
    have hl : leading ew q = 1 - bias ew := by omega
    simp [hm0, hl]
  · have hl : leading ew q = ((E + 1 : Nat) : Int) - bias ew := by push_cast; omega
    have hm1 : m = 2 ^ mw + r := by omega
    simp [hm1, hl]
  · rw [Nat.pow_succ] at hm
    have hr0 : r = 0 := by omega
    have hm2 : m = 2 ^ mw * 2 := by omega
    rw [hr0, hm2, if_neg (by omega), max_eq_left (by omega),
      show leading ew q = E + 1 - bias ew by omega,
      show ((E + 2 : Nat) : Int) - bias ew - mw = (E + 1 - bias ew - mw) + 1 by push_cast; ring,
      zpow_add_one₀ (by norm_num)]
    push_cast
    ring

theorem isIntegral_iff {x : BinaryFloat ew mw} :
    x.isIntegral = true ↔ x.isFinite = true ∧ ∃ n : Int, x.value = n := by
  simp only [isIntegral, Bool.and_eq_true, beq_iff_eq]
  refine and_congr_right fun _ => ⟨fun h => ⟨x.value.num, ?_⟩, ?_⟩
  · exact (Rat.den_eq_one_iff _).mp h |>.symm
  · rintro ⟨n, hn⟩
    rw [hn, Rat.den_intCast]

theorem toIntSat_of_value {x : BinaryFloat ew mw} {n : Int} (hf : x.isFinite = true)
    (hx : x.value = n) (lo hi : Int) : x.toIntSat lo hi = max lo (min hi n) := by
  simp [toIntSat, isNaN, hf, hx]

theorem eq_comm (x y : BinaryFloat ew mw) : x.eq y = y.eq x := by
  unfold eq
  rw [Bool.and_comm x.isFinite, @BEq.comm _ _ _ x.value, @BEq.comm _ _ _ x, Bool.and_comm (!x.isNaN)]

theorem eq_of_not_isFinite {x y : BinaryFloat ew mw} (hx : x.isFinite = false) (hxn : x.isNaN = false)
    (hy : y.isFinite = false) (hyn : y.isNaN = false) : x = y ↔ x.sign = y.sign := by
  obtain ⟨s, e, f⟩ := x
  obtain ⟨s', e', f'⟩ := y
  simp only [isNaN, isFinite, decide_not, Bool.not_not, Bool.and_eq_false_imp, decide_eq_true_eq,
    Bool.not_eq_false'] at *
  rw [mk.injEq]
  exact ⟨And.left, fun h => ⟨h, hx.trans hy.symm, (hxn hx).trans (hyn hy).symm⟩⟩

theorem eq_iff_exact {x y : BinaryFloat ew mw} (hx : x.isNaN = false) (hy : y.isNaN = false) :
    x.eq y = true ↔ x.exact = y.exact := by
  unfold eq exact
  cases hfx : x.isFinite <;> cases hfy : y.isFinite
  · simp [hx, hy, eq_of_not_isFinite hfx hx hfy hy]
  · have hne : x ≠ y := fun h => by simp [h, hfy] at hfx
    simp [hx, hy, hne]
  · have hne : x ≠ y := fun h => by simp [h, hfy] at hfx
    simp [hx, hy, hne]
  · simp

theorem significand_lt (x : BinaryFloat ew mw) : x.significand < 2 ^ (mw + 1) := by
  have := x.fraction.isLt
  rw [significand, Nat.pow_succ]
  split_ifs <;> omega

theorem abs_value (x : BinaryFloat ew mw) : |x.value| = x.significand * 2 ^ x.scale := by
  rw [value, mul_assoc, abs_mul]
  have h : |(if x.sign then -1 else 1 : Rat)| = 1 := by split_ifs <;> simp
  rw [h, one_mul, abs_of_nonneg (by positivity)]

theorem even_of_value {x : BinaryFloat ew mw} {n : Int} (hx : x.value = n)
    (hn : 2 ^ (mw + 1) ≤ |n|) : 2 ∣ n := by
  have hs : ((x.significand : Int) : Rat) < ((2 ^ (mw + 1) : Int) : Rat) := by
    exact_mod_cast x.significand_lt
  have habs : ((|n| : Int) : Rat) = x.significand * 2 ^ x.scale := by
    rw [← abs_value, hx, Int.cast_abs]
  have hscale : 0 < x.scale := by
    by_contra hle
    have hone : (2 : Rat) ^ x.scale ≤ 1 := zpow_le_one_of_nonpos₀ (by norm_num) (by omega)
    have hlt : ((|n| : Int) : Rat) < ((2 ^ (mw + 1) : Int) : Rat) := by
      rw [habs]
      refine lt_of_le_of_lt ?_ hs
      exact mul_le_of_le_one_right (by positivity) hone
    exact absurd (Int.cast_lt.mp hlt) (not_lt.mpr hn)
  obtain ⟨k, hk⟩ : ∃ k : Nat, x.scale = k + 1 := ⟨(x.scale - 1).toNat, by omega⟩
  rw [← dvd_abs]
  refine ⟨x.significand * 2 ^ k, ?_⟩
  have : ((|n| : Int) : Rat) = ((2 * (x.significand * 2 ^ k) : Int) : Rat) := by
    rw [habs, hk, zpow_add_one₀ (by norm_num), zpow_natCast]
    push_cast
    ring
  exact_mod_cast this

theorem isFinite_ofRat {q : Rat} (hew : 0 < ew) (h : packed ew mw q / 2 ^ mw < 2 ^ ew - 1) :
    (ofRat q : BinaryFloat ew mw).isFinite = true := by
  have htwo : 2 ≤ 2 ^ ew := by
    calc 2 = 2 ^ 1 := rfl
      _ ≤ 2 ^ ew := Nat.pow_le_pow_right (by norm_num) hew
  unfold ofRat
  split_ifs with hq hle
  · simp only [isFinite, zero, decide_eq_true_eq, ← BitVec.toNat_inj, BitVec.toNat_allOnes, ne_eq]
    simp only [BitVec.ofNat_eq_ofNat, BitVec.toNat_ofNat, Nat.zero_mod]
    omega
  · exact absurd h (not_lt.mpr hle)
  · simp only [isFinite, decide_eq_true_eq, ← BitVec.toNat_inj, BitVec.toNat_allOnes, ne_eq,
      BitVec.toNat_ofNat, Nat.mod_eq_of_lt (h.trans_le (Nat.sub_le _ _))]
    exact ne_of_lt h

theorem value_ofInt {n : Int} (h : packed ew mw n / 2 ^ mw < 2 ^ ew - 1) :
    ∃ k : Int, (ofInt n : BinaryFloat ew mw).value = k := by
  by_cases hn : n = 0
  · exact ⟨0, by simp [ofInt, hn, ofRat, value, significand, zero]⟩
  have hq : (n : Rat) ≠ 0 := by exact_mod_cast hn
  rw [ofInt, value_ofRat hq h]
  rcases le_or_gt (mw : Int) (leading ew n) with hle | hlt
  · obtain ⟨k, hk⟩ : ∃ k : Nat, leading ew (n : Rat) - mw = k := ⟨_, (Int.toNat_of_nonneg (by omega)).symm⟩
    refine ⟨(if (n : Rat) < 0 then -1 else 1) * mantissa ew mw n * 2 ^ k, ?_⟩
    rw [hk, zpow_natCast]
    push_cast
    split_ifs <;> simp
  · obtain ⟨k, hk⟩ : ∃ k : Nat, (mw : Int) - leading ew n = k := ⟨_, (Int.toNat_of_nonneg (by omega)).symm⟩
    have hneg : leading ew (n : Rat) - mw = -(k : Int) := by omega
    have hm : (mantissa ew mw (n : Rat) : Rat) = |(n : Rat)| * 2 ^ k := by
      have hint : |(n : Rat)| / 2 ^ (-(k : Int)) = ((|n| * 2 ^ k : Int) : Rat) := by
        rw [zpow_neg, zpow_natCast, div_inv_eq_mul]
        push_cast
        rfl
      rw [mantissa, hneg, hint, roundEven_int]
      have hnn : 0 ≤ |n| * 2 ^ k := by positivity
      have : (((|n| * 2 ^ k).toNat : Int) : Rat) = ((|n| * 2 ^ k : Int) : Rat) := by
        rw [Int.toNat_of_nonneg hnn]
      push_cast at this ⊢
      exact_mod_cast this
    refine ⟨(if (n : Rat) < 0 then -1 else 1) * |n|, ?_⟩
    rw [hm, hneg, zpow_neg, zpow_natCast]
    push_cast
    field_simp

end BinaryFloat

abbrev F64 := BinaryFloat 11 52
abbrev F32 := BinaryFloat 8 23

end TofuSdk
