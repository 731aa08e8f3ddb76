import TofuSdk.BinaryFloat

namespace TofuSdk

namespace BinaryFloat

variable {ew mw ew' mw' : Nat}

theorem mantissa_of_abs {q : Rat} {s : Nat} {e : Int} (hq : |q| = s * 2 ^ e) (h : leading ew q - mw ≤ e) :
    mantissa ew mw q = s * 2 ^ (e - (leading ew q - mw)).toNat := by
  obtain ⟨k, hk⟩ : ∃ k : Nat, e - (leading ew q - mw) = k := ⟨_, (Int.toNat_of_nonneg (by omega)).symm⟩
  have hdiv : |q| / 2 ^ (leading ew q - mw) = ((s * 2 ^ k : Int) : Rat) := by
    rw [hq, mul_div_assoc, ← zpow_sub₀ (by norm_num), hk, zpow_natCast]
    push_cast
    rfl
  rw [mantissa, hdiv, roundEven_int, hk, Int.toNat_natCast]
  exact_mod_cast Int.toNat_natCast (s * 2 ^ k)

theorem significand_pos {x : BinaryFloat ew mw} (h : x.value ≠ 0) : 0 < x.significand := by
  rw [Nat.pos_iff_ne_zero]
  intro hzero
  simp [value, hzero] at h

theorem exponent_pos {x : BinaryFloat ew mw} (h : x.exponent ≠ 0) : 1 ≤ x.exponent.toNat := by
  rw [Nat.one_le_iff_ne_zero]
  intro hzero
  exact h (BitVec.eq_of_toNat_eq (by simpa using hzero))

theorem log_value_le {x : BinaryFloat ew mw} (h : x.value ≠ 0) : Int.log 2 |x.value| ≤ x.scale + mw := by
  have hlt : |x.value| < 2 ^ (x.scale + mw + 1) := by
    have hs : (x.significand : Rat) < 2 ^ (mw + 1) := by exact_mod_cast x.significand_lt
    calc |x.value| = x.significand * 2 ^ x.scale := x.abs_value
      _ < 2 ^ (mw + 1) * 2 ^ x.scale := by gcongr
      _ = 2 ^ (x.scale + mw + 1) := by
          rw [← zpow_natCast, ← zpow_add₀ (by norm_num)]
          congr 1
          push_cast
          ring
  have hlog := (Int.lt_zpow_iff_log_lt (b := 2) (by norm_num) (abs_pos.mpr h)).mp (by push_cast; exact hlt)
  omega

theorem leading_value {x : BinaryFloat ew mw} (h : x.value ≠ 0) : leading ew x.value = x.scale + mw := by
  have hle := log_value_le h
  rw [leading]
  by_cases hexp : x.exponent = 0
  · have hscale : x.scale = 1 - bias ew - mw := by simp [scale, hexp]
    have hlt : |x.value| < 2 ^ (x.scale + mw) := by
      have hs : (x.significand : Rat) < 2 ^ mw := by
        rw [significand, if_pos hexp]
        exact_mod_cast x.fraction.isLt
      calc |x.value| = x.significand * 2 ^ x.scale := x.abs_value
        _ < 2 ^ mw * 2 ^ x.scale := by gcongr
        _ = 2 ^ (x.scale + mw) := by
            rw [← zpow_natCast, ← zpow_add₀ (by norm_num), add_comm]
    have hlog := (Int.lt_zpow_iff_log_lt (b := 2) (by norm_num) (abs_pos.mpr h)).mp (by push_cast; exact hlt)
    omega
  · have hpos := exponent_pos hexp
    have hscale : x.scale = x.exponent.toNat - bias ew - mw := by
      rw [scale]
      omega
    have hge : 2 ^ (x.scale + mw) ≤ |x.value| := by
      have hs : (2 ^ mw : Rat) ≤ x.significand := by
        rw [significand, if_neg hexp]
        push_cast
        linarith [Nat.cast_nonneg (α := Rat) x.fraction.toNat]
      calc (2 : Rat) ^ (x.scale + mw) = 2 ^ mw * 2 ^ x.scale := by
            rw [← zpow_natCast, ← zpow_add₀ (by norm_num), add_comm]
        _ ≤ x.significand * 2 ^ x.scale := by gcongr
        _ = |x.value| := x.abs_value.symm
    have hlog := (Int.zpow_le_iff_le_log (b := 2) (by norm_num) (abs_pos.mpr h)).mp (by push_cast; exact hge)
    omega

theorem packed_value {x : BinaryFloat ew mw} (h : x.value ≠ 0) :
    packed ew mw x.value = x.exponent.toNat * 2 ^ mw + x.fraction.toNat := by
  have hlead := leading_value h
  have hm : mantissa ew mw x.value = x.significand := by
    rw [mantissa_of_abs x.abs_value (by omega)]
    have hzero : (x.scale - (leading ew x.value - mw)).toNat = 0 := by omega
    rw [hzero, Nat.pow_zero, Nat.mul_one]
  have hexp : leading ew x.value + bias ew - 1 = max x.exponent.toNat 1 - 1 := by
    rw [hlead, scale]
    push_cast
    ring
  rw [packed, hm, hexp, significand]
  by_cases hzero : x.exponent = 0
  · simp [hzero]
  · have hpos := exponent_pos hzero
    obtain ⟨e, he⟩ : ∃ e, x.exponent.toNat = e + 1 := ⟨x.exponent.toNat - 1, by omega⟩
    rw [if_neg hzero, he]
    have hnat : (max ((e + 1 : Nat) : Int) 1 - 1).toNat = e := by omega
    push_cast at hnat ⊢
    rw [hnat]
    ring

theorem exponent_lt {x : BinaryFloat ew mw} (hx : x.isFinite = true) : x.exponent.toNat < 2 ^ ew - 1 := by
  have hne : x.exponent.toNat ≠ 2 ^ ew - 1 := by
    intro h
    have hall : x.exponent = BitVec.allOnes ew := BitVec.eq_of_toNat_eq (by rw [h, BitVec.toNat_allOnes])
    simp [isFinite, hall] at hx
  have := x.exponent.isLt
  omega

theorem sign_of_value {x : BinaryFloat ew mw} (h : x.value ≠ 0) : decide (x.value < 0) = x.sign := by
  have hpos : (0 : Rat) < x.significand * 2 ^ x.scale := by
    have hs : (0 : Rat) < x.significand := by exact_mod_cast significand_pos h
    positivity
  rw [value, mul_assoc]
  cases x.sign with
  | true => simpa using hpos
  | false => simpa using hpos.le

theorem eq_zero_of_value {x : BinaryFloat ew mw} (h : x.value = 0) : x.exponent = 0 ∧ x.fraction = 0 := by
  have habs := x.abs_value
  rw [h, abs_zero] at habs
  have hs : (x.significand : Rat) = 0 := by
    have hpow : (2 : Rat) ^ x.scale ≠ 0 := by positivity
    exact (mul_eq_zero.mp habs.symm).resolve_right hpow
  have hs : x.significand = 0 := by exact_mod_cast hs
  rw [significand] at hs
  by_cases hexp : x.exponent = 0
  · rw [if_pos hexp] at hs
    exact ⟨hexp, BitVec.eq_of_toNat_eq (by simpa using hs)⟩
  · rw [if_neg hexp] at hs
    have : 0 < 2 ^ mw := by positivity
    omega

theorem ofRat_value {x : BinaryFloat ew mw} (hx : x.isFinite = true) :
    { ofRat x.value with sign := x.sign } = x := by
  by_cases h : x.value = 0
  · obtain ⟨hexp, hfrac⟩ := eq_zero_of_value h
    rw [h, ofRat, if_pos rfl]
    obtain ⟨sign, exponent, fraction⟩ := x
    simp only at hexp hfrac
    rw [hexp, hfrac, zero]
  · have hfrac := x.fraction.isLt
    have hdiv : packed ew mw x.value / 2 ^ mw = x.exponent.toNat := by
      rw [packed_value h, Nat.add_comm, Nat.add_mul_div_right _ _ (by positivity), Nat.div_eq_of_lt hfrac,
        Nat.zero_add]
    have hmod : packed ew mw x.value % 2 ^ mw = x.fraction.toNat := by
      rw [packed_value h, Nat.add_comm, Nat.add_mul_mod_self_right, Nat.mod_eq_of_lt hfrac]
    rw [ofRat, if_neg h, hdiv, hmod, if_neg (not_le.mpr (exponent_lt hx))]
    simp

theorem bias_mono (h : 0 < ew) (hew : ew ≤ ew') : bias ew ≤ bias ew' := by
  have hpow : (2 : Int) ^ (ew - 1) ≤ 2 ^ (ew' - 1) := pow_le_pow_right₀ (by norm_num) (by omega)
  rw [bias, bias]
  omega

theorem two_pow_pred (h : 0 < ew) : 2 ^ ew = 2 * 2 ^ (ew - 1) := by
  rw [← Nat.pow_succ', Nat.succ_eq_add_one, Nat.sub_add_cancel h]

theorem leading_wider {x : BinaryFloat ew mw} (hx : x.isFinite = true) (h : x.value ≠ 0) (hew : 1 < ew)
    (hle : ew ≤ ew') : leading ew' x.value + bias ew' < 2 ^ ew' - 1 := by
  have hlead : leading ew' x.value ≤ max (x.scale + mw) (1 - bias ew') := max_le_max (log_value_le h) le_rfl
  have hexp := exponent_lt hx
  have htwo := two_pow_pred (by omega : 0 < ew)
  have htwo' := two_pow_pred (by omega : 0 < ew')
  have hmono : 2 ^ (ew - 1) ≤ 2 ^ (ew' - 1) := Nat.pow_le_pow_right (by norm_num) (by omega)
  have hmin : 2 ^ 1 ≤ 2 ^ (ew - 1) := Nat.pow_le_pow_right (by norm_num) (by omega)
  have hb : bias ew = ((2 ^ (ew - 1) : Nat) : Int) - 1 := by simp [bias]
  have hb' : bias ew' = ((2 ^ (ew' - 1) : Nat) : Int) - 1 := by simp [bias]
  have hcast : (2 : Int) ^ ew' = ((2 ^ ew' : Nat) : Int) := by push_cast; rfl
  have hscale : x.scale + mw = max (x.exponent.toNat : Int) 1 - bias ew := by
    rw [scale]
    omega
  rw [hcast]
  omega

theorem value_ofRat_wider {x : BinaryFloat ew mw} (hx : x.isFinite = true) (h : x.value ≠ 0) (hew : 1 < ew)
    (hle : ew ≤ ew') (hmw : mw ≤ mw') : (ofRat x.value : BinaryFloat ew' mw').isFinite = true ∧
      (ofRat x.value : BinaryFloat ew' mw').value = x.value := by
  have hbias := bias_mono (by omega : 0 < ew) hle
  have hlog := log_value_le h
  have hscale : 1 - bias ew - mw ≤ x.scale := by
    rw [scale]
    omega
  have hfit : leading ew' x.value - mw' ≤ x.scale := by
    rw [leading]
    omega
  have hm : (mantissa ew' mw' x.value : Rat) * 2 ^ (leading ew' x.value - mw') = |x.value| := by
    rw [mantissa_of_abs x.abs_value hfit, x.abs_value]
    push_cast
    rw [← zpow_natCast, Int.toNat_of_nonneg (by omega), mul_assoc, ← zpow_add₀ (by norm_num), sub_add_cancel]
  have hmlt : mantissa ew' mw' x.value < 2 ^ (mw' + 1) := by
    have hlt := @lt_two_zpow_leading ew' x.value
    rw [← hm] at hlt
    have hrat : (mantissa ew' mw' x.value : Rat) < 2 ^ (mw' + 1) := by
      rw [← lt_div_iff₀ (by positivity), ← zpow_sub₀ (by norm_num)] at hlt
      rwa [← zpow_natCast, show ((mw' + 1 : Nat) : Int) =
        leading ew' x.value + 1 - (leading ew' x.value - mw') by push_cast; ring]
    exact_mod_cast hrat
  have hpacked : packed ew' mw' x.value / 2 ^ mw' < 2 ^ ew' - 1 := by
    have hlead := leading_wider hx h hew hle
    have hmin : 1 - bias ew' ≤ leading ew' x.value := le_max_right _ _
    have hcast : (2 : Int) ^ ew' = ((2 ^ ew' : Nat) : Int) := by push_cast; rfl
    have hq : mantissa ew' mw' x.value / 2 ^ mw' ≤ 1 := by
      rw [← Nat.lt_succ_iff, Nat.div_lt_iff_lt_mul (by positivity)]
      rw [Nat.pow_succ] at hmlt
      omega
    rw [packed, Nat.add_comm, Nat.add_mul_div_right _ _ (by positivity)]
    rw [hcast] at hlead
    omega
  refine ⟨isFinite_ofRat (by omega) hpacked, ?_⟩
  rw [value_ofRat h hpacked, mul_assoc, hm]
  split_ifs with hneg
  · rw [abs_of_neg hneg]
    ring
  · rw [abs_of_nonneg (not_lt.mp hneg), one_mul]

theorem sign_ofRat {q : Rat} (h : q ≠ 0) : (ofRat q : BinaryFloat ew mw).sign = decide (q < 0) := by
  rw [ofRat, if_neg h]
  split_ifs <;> rfl

theorem isFinite_zero (hew : 0 < ew) (sign : Bool) : (⟨sign, 0, 0⟩ : BinaryFloat ew mw).isFinite = true := by
  have hpow : 2 ^ 1 ≤ 2 ^ ew := Nat.pow_le_pow_right (by norm_num) hew
  rw [isFinite, decide_eq_true_eq]
  intro h
  have hnat := congrArg BitVec.toNat h
  rw [BitVec.toNat_allOnes] at hnat
  change 0 % 2 ^ ew = _ at hnat
  rw [Nat.zero_mod] at hnat
  omega

theorem cast_cast {x : BinaryFloat ew mw} (hx : x.isFinite = true) (hew : 1 < ew) (hle : ew ≤ ew')
    (hmw : mw ≤ mw') : ((x.cast : BinaryFloat ew' mw').cast : BinaryFloat ew mw) = x := by
  have hwide : (x.cast : BinaryFloat ew' mw') = { ofRat x.value with sign := x.sign } := if_pos hx
  have hfinite : (x.cast : BinaryFloat ew' mw').isFinite = true ∧ (x.cast : BinaryFloat ew' mw').value = x.value := by
    rw [hwide]
    by_cases h : x.value = 0
    · rw [h, ofRat, if_pos rfl]
      exact ⟨isFinite_zero (by omega) x.sign, by simp [value, significand, zero]⟩
    · have hsign : { (ofRat x.value : BinaryFloat ew' mw') with sign := x.sign } = ofRat x.value := by
        rw [← sign_of_value h, ← sign_ofRat h]
      rw [hsign]
      exact value_ofRat_wider hx h hew hle hmw
  rw [cast, if_pos hfinite.1, hfinite.2, hwide]
  exact ofRat_value hx

end BinaryFloat

end TofuSdk
