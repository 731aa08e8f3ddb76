import TofuSdk.Deadlines
import TofuSdk.FloatCast
import TofuSdk.Stored
import Mathlib.Data.Nat.Prime.Basic

namespace TofuSdk

open Timeouts

namespace BinaryFloat

variable {ew mw : Nat}

def unsignedZero (x : BinaryFloat ew mw) : BinaryFloat ew mw := if x.value = 0 then zero else x

theorem value_zero : (zero : BinaryFloat ew mw).value = 0 := by
  simp [value, significand, zero]

@[simp] theorem unsignedZero_unsignedZero (x : BinaryFloat ew mw) : x.unsignedZero.unsignedZero = x.unsignedZero := by
  by_cases h : x.value = 0
  · rw [unsignedZero, unsignedZero, if_pos h, if_pos value_zero]
  · rw [unsignedZero, unsignedZero, if_neg h, if_neg h]

theorem isFinite_unsignedZero {x : BinaryFloat ew mw} (hew : 0 < ew) (h : x.isFinite = true) :
    x.unsignedZero.isFinite = true := by
  rw [unsignedZero]
  split_ifs
  · exact isFinite_zero hew false
  · exact h

theorem unsignedZero_ofRat_abs (q : Rat) :
    ({ ofRat |q| with sign := decide (q < 0) } : BinaryFloat ew mw).unsignedZero = (ofRat q).unsignedZero := by
  by_cases hq : q = 0
  · subst hq
    simp [ofRat, unsignedZero, value, significand, zero]
  · have habs : |q| ≠ 0 := abs_ne_zero.mpr hq
    have hpacked : packed ew mw |q| = packed ew mw q := by
      simp only [packed, mantissa, leading, abs_abs]
    rw [ofRat, ofRat, if_neg habs, if_neg hq, hpacked]
    split_ifs <;> rfl

theorem unsignedZero_ofRat_value {x : BinaryFloat ew mw} (hx : x.isFinite = true) :
    (ofRat x.value).unsignedZero = x.unsignedZero := by
  by_cases h : x.value = 0
  · simp [h, ofRat, unsignedZero, value_zero]
  · have hsign : { ofRat x.value with sign := x.sign } = (ofRat x.value : BinaryFloat ew mw) := by
      rw [← sign_of_value h, ← sign_ofRat h]
    rw [← hsign, ofRat_value hx]

theorem isFinite_of_unsignedZero {x y : BinaryFloat ew mw} (hew : 0 < ew) (h : x.unsignedZero = y.unsignedZero)
    (hy : y.isFinite = true) : x.isFinite = true := by
  have hz := isFinite_unsignedZero hew hy
  rw [← h, unsignedZero] at hz
  split_ifs at hz with hx
  · obtain ⟨sign, exponent, fraction⟩ := x
    obtain ⟨hexp, hfrac⟩ := eq_zero_of_value hx
    simp only at hexp hfrac
    rw [hexp, hfrac]
    exact isFinite_zero hew sign
  · exact hz

theorem den_value (x : BinaryFloat ew mw) : ∃ k, x.value.den = 2 ^ k := by
  obtain hscale | hscale := le_or_gt 0 x.scale
  · refine ⟨0, ?_⟩
    obtain ⟨n, hn⟩ := Int.eq_ofNat_of_zero_le hscale
    have hint : x.value = ((if x.sign then -1 else 1) * x.significand * 2 ^ n : Int) := by
      rw [value, hn]
      push_cast
      rw [zpow_natCast]
    rw [hint, Rat.den_intCast, pow_zero]
  · obtain ⟨n, hn⟩ := Int.eq_ofNat_of_zero_le (neg_nonneg.mpr hscale.le)
    have hfrac : x.value = (((if x.sign then -1 else 1) * x.significand : Int) : Rat) / ((2 ^ n : Int) : Rat) := by
      have hscale' : x.scale = -(n : Int) := by omega
      rw [value, hscale', zpow_neg, zpow_natCast]
      push_cast
      rw [div_eq_mul_inv]
    have hdvd := Rat.den_dvd ((if x.sign then -1 else 1) * x.significand : Int) (2 ^ n)
    rw [Rat.divInt_eq_div, ← hfrac] at hdvd
    obtain ⟨k, -, hk⟩ := (Nat.dvd_prime_pow Nat.prime_two).mp (by exact_mod_cast hdvd : x.value.den ∣ 2 ^ n)
    exact ⟨k, hk⟩

end BinaryFloat

section

variable {cs : List Char} {q : Rat}

theorem ofDigits_append (cs ds : List Char) : ofDigits (cs ++ ds) = ofDigits cs * 10 ^ ds.length + ofDigits ds := by
  rw [ofDigits, ofDigits, ofDigits, List.reverse_append, List.map_append, Nat.ofDigits_append, List.length_map,
    List.length_reverse]
  ring

theorem ofDigits_toDigits (n : Nat) : ofDigits (Nat.toDigits 10 n) = n := by
  induction n using Nat.strong_induction_on with
  | h n ih =>
      have hchar : ∀ d < 10, ofDigits [d.digitChar] = d := by decide
      by_cases hn : n < 10
      · rw [Nat.toDigits_of_lt_base hn, hchar n hn]
      · rw [Nat.toDigits_of_base_le (by decide) (by omega), ofDigits_append, ih _ (by omega),
          hchar _ (Nat.mod_lt n (by decide)), List.length_singleton, pow_one]
        omega

theorem ofDigits_zeros (n : Nat) (cs : List Char) : ofDigits (List.replicate n '0' ++ cs) = ofDigits cs := by
  have hzeros : ofDigits (List.replicate n '0') = 0 := by
    induction n with
    | zero => rfl
    | succ n ih =>
        rw [List.replicate_succ', ofDigits_append, ih, zero_mul]
        rfl
  rw [ofDigits_append, hzeros, zero_mul, zero_add]

theorem decimal_toDigits (n : Nat) : Decimal (Nat.toDigits 10 n) n := by
  have h := Decimal.whole Nat.toDigits_ne_nil (JsonText.isDigit_toDigits n)
  rwa [ofDigits_toDigits] at h

theorem parseF64_decimal (h : Decimal cs q) :
    Number.parseF64 cs = some { BinaryFloat.ofRat q with sign := false } := by
  rw [parseF64_of_isNumeric h.isNumeric, h.parseDecimal, Option.map_some]

theorem parseF64_neg_decimal (h : Decimal cs q) :
    Number.parseF64 ('-' :: cs) = some { BinaryFloat.ofRat q with sign := true } := by
  have hlower : cs.map Char.toLower = cs := by
    rw [List.map_congr_left fun c hc => toLower_of_isNumeric (h.isNumeric c hc), List.map_id']
  have hword : ∀ word : String, (∃ c ∈ word.toList, isNumeric c = false) → cs ≠ word.toList := by
    rintro word ⟨c, hc, hn⟩ rfl
    rw [h.isNumeric c hc] at hn
    cases hn
  have hinf := hword "inf" ⟨'i', by simp, rfl⟩
  have hinfinity := hword "infinity" ⟨'i', by simp, rfl⟩
  have hnan := hword "nan" ⟨'n', by simp, rfl⟩
  have hminus : Number.signed ('-' :: cs) = (true, cs) := rfl
  rw [Number.parseF64, hminus]
  simp only [hlower, hinf, hinfinity, hnan, decide_false, Bool.or_self, Bool.false_eq_true, if_false, h.parseDecimal,
    Option.map_some]

theorem spellFloat_decimal (x : F64) : ∃ cs, Decimal cs |x.value| ∧
    Json.spellFloat x.value = (if x.value < 0 then ['-'] else []) ++ cs := by
  obtain ⟨k, hk⟩ := x.den_value
  generalize x.value = q at hk
  have hplaces : Nat.log2 q.den = k := by rw [hk, Nat.log2_two_pow]
  let scaled := q.num.natAbs * 5 ^ k
  let digits := Nat.toDigits 10 (scaled % 10 ^ k)
  let fraction := List.replicate (k - digits.length) '0' ++ digits
  have hdigit : ∀ c ∈ Nat.toDigits 10 (scaled / 10 ^ k) ++ fraction, c.isDigit = true := by
    intro c hc
    simp only [fraction, List.mem_append, List.mem_replicate] at hc
    rcases hc with hc | ⟨-, rfl⟩ | hc
    · exact JsonText.isDigit_toDigits _ c hc
    · rfl
    · exact JsonText.isDigit_toDigits _ c hc
  have hne : Nat.toDigits 10 (scaled / 10 ^ k) ++ fraction ≠ [] :=
    List.append_ne_nil_of_left_ne_nil Nat.toDigits_ne_nil _
  have hdecimal := Decimal.point hne hdigit
  have hmod := Nat.mod_lt scaled (show 0 < 10 ^ k by positivity)
  have hfraction : (ofDigits fraction : Rat) / 10 ^ fraction.length = (scaled % 10 ^ k : Nat) / 10 ^ k := by
    rw [ofDigits_zeros, ofDigits_toDigits]
    obtain rfl | hpos := Nat.eq_zero_or_pos k
    · rw [pow_zero, Nat.mod_one]
      simp
    · have hlen := (Nat.length_toDigits_le_iff (by decide) hpos).mpr hmod
      rw [List.length_append, List.length_replicate, Nat.sub_add_cancel hlen]
  have habs : |q| = (scaled / 10 ^ k : Nat) + (scaled % 10 ^ k : Nat) / 10 ^ k := by
    have hscaled : (scaled : Rat) = (scaled / 10 ^ k : Nat) * 10 ^ k + (scaled % 10 ^ k : Nat) := by
      exact_mod_cast (Nat.div_add_mod' scaled (10 ^ k)).symm
    have hq : |q| = scaled / 10 ^ k := by
      have hten : (10 : Rat) ^ k = 2 ^ k * 5 ^ k := by
        rw [← mul_pow]
        norm_num
      have hden : |q| = q.num.natAbs / 2 ^ k := by
        conv_lhs => rw [← Rat.num_div_den q, hk]
        rw [abs_div, Nat.cast_natAbs, Int.cast_abs]
        simp
      rw [hden, hten]
      push_cast [scaled]
      rw [mul_div_mul_right _ _ (by positivity)]
    rw [hq, eq_comm, ← mul_left_inj' (show (10 : Rat) ^ k ≠ 0 by positivity), div_mul_cancel₀ _ (by positivity),
      add_mul, div_mul_cancel₀ _ (by positivity), ← hscaled]
  refine ⟨Nat.toDigits 10 (scaled / 10 ^ k) ++ '.' :: fraction, ?_, ?_⟩
  · rw [ofDigits_toDigits, hfraction, ← habs] at hdecimal
    exact hdecimal
  · simp only [Json.spellFloat, hplaces, Nat.toString_eq_repr, Nat.toList_repr, List.append_assoc]
    rfl

theorem spell_i64 (i : Int64) : Json.spell ⟨.i64 i⟩ =
    if 0 ≤ i.toInt then Nat.toDigits 10 i.toInt.toNat else '-' :: Nat.toDigits 10 (-i.toInt).toNat := by
  have hminus : "-".toList = ['-'] := rfl
  simp only [Json.spell, Int.toString_eq_repr, Int.repr_eq_if]
  split_ifs
  · rw [Nat.toList_repr]
  · rw [String.toList_append, Nat.toList_repr, hminus, List.singleton_append]

theorem parseF64_spell {n : VNumber} (hfinite : n.number.isFinite = true) :
    ∃ x : F64, Number.parseF64 (Json.spell n) = some x ∧ x.unsignedZero = n.number.toF64Lossy.unsignedZero := by
  have hsigned : ∀ {cs : List Char} {q : Rat}, Decimal cs |q| →
      ∃ x : F64, Number.parseF64 ((if q < 0 then ['-'] else []) ++ cs) = some x ∧
        x.unsignedZero = (BinaryFloat.ofRat q).unsignedZero := by
    intro cs q h
    refine ⟨_, ?_, BinaryFloat.unsignedZero_ofRat_abs q⟩
    split_ifs with hq
    · rw [decide_eq_true hq]
      exact parseF64_neg_decimal h
    · rw [decide_eq_false hq]
      exact parseF64_decimal h
  obtain ⟨number⟩ := n
  cases number with
  | i64 i =>
      have hspell : Json.spell ⟨.i64 i⟩ =
          (if (i.toInt : Rat) < 0 then ['-'] else []) ++ Nat.toDigits 10 i.toInt.natAbs := by
        have hneg : (i.toInt : Rat) < 0 ↔ ¬0 ≤ i.toInt := by
          rw [not_le]
          exact_mod_cast Iff.rfl
        rw [spell_i64]
        simp only [hneg]
        by_cases h : 0 ≤ i.toInt
        · have hnat : i.toInt.toNat = i.toInt.natAbs := by omega
          rw [if_pos h, if_neg (not_not.mpr h), hnat, List.nil_append]
        · have hnat : (-i.toInt).toNat = i.toInt.natAbs := by omega
          rw [if_neg h, if_pos h, hnat, List.singleton_append]
      have habs : Decimal (Nat.toDigits 10 i.toInt.natAbs) |(i.toInt : Rat)| := by
        rw [← Int.cast_abs, ← Int.natCast_natAbs, Int.cast_natCast]
        exact decimal_toDigits _
      rw [hspell]
      exact hsigned habs
  | u64 u =>
      have hspell : Json.spell ⟨.u64 u⟩ = Nat.toDigits 10 u.toNat := Nat.toList_repr
      rw [hspell]
      have habs : Decimal (Nat.toDigits 10 u.toNat) |(u.toNat : Rat)| := by
        rw [abs_of_nonneg (Nat.cast_nonneg _)]
        exact decimal_toDigits _
      have hread := hsigned habs
      rw [if_neg (not_lt.mpr (Nat.cast_nonneg u.toNat)), List.nil_append] at hread
      obtain ⟨x, hx, hround⟩ := hread
      refine ⟨x, hx, hround.trans ?_⟩
      rw [Number.toF64Lossy, BinaryFloat.ofInt, Int.cast_natCast]
  | f64 f =>
      obtain ⟨cs, hdecimal, hspell⟩ := spellFloat_decimal f
      obtain ⟨x, hx, hround⟩ := hsigned hdecimal
      refine ⟨x, ?_, hround.trans (BinaryFloat.unsignedZero_ofRat_value hfinite)⟩
      rw [← hx, ← hspell]
      rfl

theorem digits_toDigits (n : Nat) :
    Number.digits (Nat.toDigits 10 n) = (n, (Nat.toDigits 10 n).length, []) := by
  have h := digits_append [] (JsonText.isDigit_toDigits n) (by simp)
  rwa [List.append_nil, ofDigits_toDigits] at h

theorem signed_toDigits (n : Nat) : Number.signed (Nat.toDigits 10 n) = (false, Nat.toDigits 10 n) :=
  signed_of_isNumeric (decimal_toDigits n).isNumeric

theorem length_toDigits_pos (n : Nat) : 0 < (Nat.toDigits 10 n).length := List.length_pos_iff.mpr Nat.toDigits_ne_nil

theorem parseI64_toDigits (n : Nat) :
    Number.parseI64 (Nat.toDigits 10 n) = if n < 2 ^ 63 then some (Int64.ofInt n) else none := by
  have hmin : -2 ^ 63 ≤ (n : Int) := by omega
  simp only [Number.parseI64, signed_toDigits, digits_toDigits, length_toDigits_pos, decide_true, hmin,
    List.isEmpty_nil, Bool.and_true, Bool.true_and, Bool.false_eq_true, if_false, decide_eq_true_eq]
  exact if_congr (by exact_mod_cast Iff.rfl) rfl rfl

theorem parseI64_neg_toDigits {n : Nat} (h : n ≤ 2 ^ 63) :
    Number.parseI64 ('-' :: Nat.toDigits 10 n) = some (Int64.ofInt (-n)) := by
  have hminus : Number.signed ('-' :: Nat.toDigits 10 n) = (true, Nat.toDigits 10 n) := rfl
  have hmin : (-2 ^ 63 : Int) ≤ -(n : Int) := by omega
  have hmax : -(n : Int) < 2 ^ 63 := by omega
  simp only [Number.parseI64, hminus, digits_toDigits, length_toDigits_pos, decide_true, hmin, hmax,
    List.isEmpty_nil, Bool.and_self, if_true]

theorem parseU64_toDigits {n : Nat} (h : n < 2 ^ 64) :
    Number.parseU64 (Nat.toDigits 10 n) = some (UInt64.ofNat n) := by
  simp only [Number.parseU64, signed_toDigits, digits_toDigits, length_toDigits_pos, decide_true, h,
    List.isEmpty_nil, Bool.and_self, Bool.not_false, if_true]

theorem readNumber_spell {n : VNumber} (hfinite : n.number.isFinite = true) :
    ∃ m, Json.readNumber (Json.spell n) = some m ∧ m.number.isFinite = true ∧
      m.number.toF64Lossy.unsignedZero = n.number.toF64Lossy.unsignedZero := by
  have hwhole : ∀ n : Nat, ((Nat.toDigits 10 n).any fun c => c = '.' || c = 'e' || c = 'E') = false := by
    intro n
    rw [List.any_eq_false]
    intro c hc hmark
    have hdigit := JsonText.isDigit_toDigits n c hc
    simp only [Bool.or_eq_true, decide_eq_true_eq] at hmark
    obtain (rfl | rfl) | rfl := hmark <;> exact absurd hdigit (by decide)
  obtain ⟨number⟩ := n
  cases number with
  | i64 i =>
      refine ⟨⟨.i64 i⟩, ?_, rfl, rfl⟩
      have hmin := i.le_toInt
      have hmax := i.toInt_lt
      rw [spell_i64]
      by_cases h : 0 ≤ i.toInt
      · have hnat : ((i.toInt.toNat : Nat) : Int) = i.toInt := Int.toNat_of_nonneg h
        have hlt : i.toInt.toNat < 2 ^ 63 := by omega
        rw [if_pos h, Json.readNumber, hwhole, if_neg Bool.false_ne_true, parseI64_toDigits, if_pos hlt, hnat,
          Int64.ofInt_toInt]
        rfl
      · have hnat : -(((-i.toInt).toNat : Nat) : Int) = i.toInt := by omega
        have hle : (-i.toInt).toNat ≤ 2 ^ 63 := by omega
        have hmark : (decide ('-' = '.') || decide ('-' = 'e') || decide ('-' = 'E')) = false := rfl
        rw [if_neg h, Json.readNumber, List.any_cons, hwhole, hmark, Bool.or_self, if_neg Bool.false_ne_true,
          parseI64_neg_toDigits hle, hnat, Int64.ofInt_toInt]
        rfl
  | u64 u =>
      have hlt := u.toNat_lt
      have hspell : Json.spell ⟨.u64 u⟩ = Nat.toDigits 10 u.toNat := Nat.toList_repr
      rw [hspell, Json.readNumber, hwhole, if_neg Bool.false_ne_true, parseI64_toDigits, parseU64_toDigits hlt,
        UInt64.ofNat_toNat]
      split_ifs with hsmall
      · refine ⟨⟨.i64 (Int64.ofInt u.toNat)⟩, rfl, rfl, ?_⟩
        rw [Number.toF64Lossy, Int64.toInt_ofInt_of_le (by omega) (by omega)]
        rfl
      · exact ⟨⟨.u64 u⟩, rfl, rfl, rfl⟩
  | f64 f =>
      obtain ⟨x, hx, hround⟩ := parseF64_spell (n := ⟨.f64 f⟩) hfinite
      have hpoint : '.' ∈ Json.spell ⟨.f64 f⟩ := by
        simp [Json.spell, Json.spellFloat]
      have hany : ((Json.spell ⟨.f64 f⟩).any fun c => c = '.' || c = 'e' || c = 'E') = true :=
        List.any_eq_true.mpr ⟨'.', hpoint, rfl⟩
      have hx' : (Number.f64 x).isFinite = true :=
        BinaryFloat.isFinite_of_unsignedZero (by decide) hround hfinite
      refine ⟨⟨.f64 x⟩, ?_, hx', hround⟩
      rw [Json.readNumber, hany, if_pos rfl, hx]
      exact if_pos hx'

end

end TofuSdk
