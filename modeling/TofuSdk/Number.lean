import TofuSdk.BinaryFloat

namespace TofuSdk

inductive Number
  | i64 (i : Int64)
  | u64 (u : UInt64)
  | f64 (f : F64)
deriving DecidableEq, Repr

namespace Number

/-- The value as an `i128`, when it is an integer within the range of the
comparison. `i128::MAX as f64` rounds up, so the cast saturates at the end. -/
def asIntegral : Number → Option Int
  | .i64 i => some i.toInt
  | .u64 u => some u.toNat
  | .f64 f =>
      if f.isIntegral && (BinaryFloat.ofInt (-2 ^ 127)).le f && f.le (BinaryFloat.ofInt (2 ^ 127 - 1)) then
        some (f.toIntSat (-2 ^ 127) (2 ^ 127 - 1))
      else none

def toF64Lossy : Number → F64
  | .i64 i => BinaryFloat.ofInt i.toInt
  | .u64 u => BinaryFloat.ofInt u.toNat
  | .f64 f => f

def toI64Lossy : Number → Int64
  | .i64 i => i
  | .u64 u => u.toInt64
  | .f64 f => Int64.ofInt (f.toIntSat (-2 ^ 63) (2 ^ 63 - 1))

def toU64Lossy : Number → UInt64
  | .i64 i => i.toUInt64
  | .u64 u => u
  | .f64 f => UInt64.ofNat (f.toIntSat 0 (2 ^ 64 - 1)).toNat

def eq (a b : Number) : Bool :=
  match a.asIntegral, b.asIntegral with
  | some a, some b => a == b
  | _, _ => a.toF64Lossy.eq b.toF64Lossy

def isNaN : Number → Bool
  | .f64 f => f.isNaN
  | _ => false

def isFinite : Number → Bool
  | .f64 f => f.isFinite
  | _ => true

/-- The mathematical value, whatever the case that carries it. -/
def exact : Number → ExtRat
  | .i64 i => .finite i.toInt
  | .u64 u => .finite u.toNat
  | .f64 f => f.exact

theorem isFinite_of_exact {a b : Number} (h : a.exact = b.exact) (ha : a.isFinite = true) : b.isFinite = true := by
  have hexact : ∀ n : Number, n.isFinite = true ↔ ∃ q, n.exact = .finite q := by
    intro n
    cases n with
    | i64 i => exact iff_of_true rfl ⟨_, rfl⟩
    | u64 u => exact iff_of_true rfl ⟨_, rfl⟩
    | f64 f =>
        change f.isFinite = true ↔ _
        rw [exact, BinaryFloat.exact]
        split_ifs with hf hnan <;> simp [hf]
  rw [hexact] at ha ⊢
  rwa [← h]

def digits : List Char → Nat × Nat × List Char
  | [] => (0, 0, [])
  | c :: cs =>
      if c.isDigit then
        let (n, k, rest) := digits cs
        ((c.toNat - '0'.toNat) * 10 ^ k + n, k + 1, rest)
      else (0, 0, c :: cs)

def signed : List Char → Bool × List Char
  | '-' :: cs => (true, cs)
  | '+' :: cs => (false, cs)
  | cs => (false, cs)

def parseI64 (s : List Char) : Option Int64 :=
  let (neg, cs) := signed s
  let (n, k, rest) := digits cs
  let i : Int := if neg then -n else n
  if 0 < k && rest.isEmpty && -2 ^ 63 ≤ i && i < 2 ^ 63 then some (Int64.ofInt i) else none

def parseU64 (s : List Char) : Option UInt64 :=
  let (neg, cs) := signed s
  let (n, k, rest) := digits cs
  if !neg && 0 < k && rest.isEmpty && n < 2 ^ 64 then some (UInt64.ofNat n) else none

def parseExponent : List Char → Option Int
  | [] => some 0
  | c :: cs =>
      let (neg, cs) := signed cs
      let (n, k, rest) := digits cs
      if (c = 'e' || c = 'E') && 0 < k && rest.isEmpty then some (if neg then -n else n) else none

def parseDecimal (cs : List Char) : Option Rat :=
  let (whole, kw, rest) := digits cs
  let (frac, kf, rest) := match rest with
    | '.' :: rest => digits rest
    | rest => (0, 0, rest)
  if kw + kf = 0 then none
  else (parseExponent rest).map fun e => (whole + frac / 10 ^ kf) * 10 ^ e

/-- `str::parse::<f64>`: a decimal with an optional exponent, rounded to the
nearest float, or a spelling of infinity or NaN in any case. -/
def parseF64 (s : List Char) : Option F64 :=
  let (neg, cs) := signed s
  let word := cs.map Char.toLower
  if word = "inf".toList || word = "infinity".toList then some (BinaryFloat.infinity neg)
  else if word = "nan".toList then some ⟨neg, BitVec.allOnes 11, 1⟩
  else (parseDecimal cs).map fun q => { BinaryFloat.ofRat q with sign := neg }

def fromStr (s : String) : Option Number :=
  match parseI64 s.toList with
  | some i => some (.i64 i)
  | none =>
      match parseU64 s.toList with
      | some u => some (.u64 u)
      | none => (parseF64 s.toList).map .f64

theorem value_minI128 : (BinaryFloat.ofInt (-2 ^ 127) : F64).value = -2 ^ 127 := by decide +kernel

theorem value_maxI128 : (BinaryFloat.ofInt (2 ^ 127 - 1) : F64).value = 2 ^ 127 := by decide +kernel

theorem le_iff_value {x y : F64} (hx : x.isFinite = true) (hy : y.isFinite = true) :
    x.le y = true ↔ x.value ≤ y.value := by
  simp [BinaryFloat.le, BinaryFloat.isNaN, hx, hy]

theorem asIntegral_f64_of_value {f : F64} {n : Int} (hf : f.isFinite = true) (hn : f.value = n)
    (hle : |n| ≤ 2 ^ 127) : asIntegral (.f64 f) = some (min (2 ^ 127 - 1) n) := by
  have hbound := abs_le.mp hle
  have hlo : (BinaryFloat.ofInt (-2 ^ 127) : F64).le f = true := by
    rw [le_iff_value (by decide +kernel) hf, value_minI128, hn]
    exact_mod_cast hbound.1
  have hhi : f.le (BinaryFloat.ofInt (2 ^ 127 - 1) : F64) = true := by
    rw [le_iff_value hf (by decide +kernel), value_maxI128, hn]
    exact_mod_cast hbound.2
  rw [asIntegral, hlo, hhi, BinaryFloat.isIntegral_iff.mpr ⟨hf, n, hn⟩,
    BinaryFloat.toIntSat_of_value hf hn]
  simp only [Bool.and_self, if_true, Option.some.injEq]
  omega

theorem asIntegral_f64_eq_none {f : F64} (h : asIntegral (.f64 f) = none) (hf : f.isFinite = true)
    {n : Int} (hn : f.value = n) : 2 ^ 127 < |n| := by
  by_contra hle
  rw [asIntegral_f64_of_value hf hn (not_lt.mp hle)] at h
  cases h

theorem asIntegral_f64_eq_some {f : F64} {k : Int} (h : asIntegral (.f64 f) = some k) :
    f.isFinite = true ∧ ∃ n : Int, f.value = n ∧ |n| ≤ 2 ^ 127 ∧ k = min (2 ^ 127 - 1) n := by
  simp only [asIntegral] at h
  split_ifs at h with hc
  simp only [Bool.and_eq_true] at hc
  obtain ⟨⟨hint, hlo⟩, hhi⟩ := hc
  obtain ⟨hf, n, hn⟩ := BinaryFloat.isIntegral_iff.mp hint
  rw [le_iff_value (by decide +kernel) hf, value_minI128, hn] at hlo
  rw [le_iff_value hf (by decide +kernel), value_maxI128, hn] at hhi
  have hle : |n| ≤ 2 ^ 127 := abs_le.mpr ⟨by exact_mod_cast hlo, by exact_mod_cast hhi⟩
  have hsome := asIntegral_f64_of_value hf hn hle
  refine ⟨hf, n, hn, hle, ?_⟩
  rw [BinaryFloat.toIntSat_of_value hf hn] at h
  have := abs_le.mp hle
  have := Option.some.inj h
  omega

/-- The rounding of a 64-bit integer stays a finite integer far below the
range of the exact comparison. -/
theorem ofInt_spec {n : Int} (hn : |n| < 2 ^ 64) :
    (BinaryFloat.ofInt n : F64).isFinite = true ∧
      ∃ k : Int, (BinaryFloat.ofInt n : F64).value = k ∧ |k| < 2 ^ 127 := by
  have hlead : BinaryFloat.leading 11 (n : Rat) ≤ 64 := by
    refine max_le ?_ (by decide)
    by_cases h0 : n = 0
    · simp [h0]
    · have hpos : 0 < |(n : Rat)| := abs_pos.mpr (by exact_mod_cast h0)
      have hlt : |(n : Rat)| < 2 ^ (65 : Int) := by
        calc |(n : Rat)| = ((|n| : Int) : Rat) := by push_cast; rfl
          _ < ((2 ^ 64 : Int) : Rat) := by exact_mod_cast hn
          _ ≤ 2 ^ (65 : Int) := by norm_num
      have hlog := (Int.lt_zpow_iff_log_lt (b := 2) (by norm_num) hpos).mp (by push_cast; exact hlt)
      omega
  have hm := @BinaryFloat.mantissa_le 11 52 n
  have hpacked : BinaryFloat.packed 11 52 (n : Rat) / 2 ^ 52 < 2 ^ 11 - 1 := by
    have hexp : (BinaryFloat.leading 11 (n : Rat) + BinaryFloat.bias 11 - 1).toNat ≤ 1086 := by
      have hb : BinaryFloat.bias 11 = 1023 := rfl
      omega
    rw [BinaryFloat.packed]
    omega
  obtain ⟨k, hk⟩ := BinaryFloat.value_ofInt (n := n) hpacked
  refine ⟨BinaryFloat.isFinite_ofRat (by norm_num) hpacked, k, hk, ?_⟩
  by_cases h0 : n = 0
  · have : (k : Rat) = 0 := by rw [← hk, h0]; decide +kernel
    have : k = 0 := by exact_mod_cast this
    simp [this]
  have habs : ((|k| : Int) : Rat) ≤ 2 ^ 53 * 2 ^ 12 := by
    have hq : (n : Rat) ≠ 0 := by exact_mod_cast h0
    have hv : |(BinaryFloat.ofInt n : F64).value| =
        BinaryFloat.mantissa 11 52 (n : Rat) * 2 ^ (BinaryFloat.leading 11 (n : Rat) - 52) := by
      rw [BinaryFloat.ofInt, BinaryFloat.value_ofRat hq hpacked, mul_assoc, abs_mul]
      have hone : |(if (n : Rat) < 0 then -1 else 1 : Rat)| = 1 := by split_ifs <;> simp
      rw [hone, one_mul, abs_of_nonneg (by positivity)]
      rfl
    rw [Int.cast_abs, ← hk, hv]
    apply mul_le_mul
    · exact_mod_cast hm
    · calc (2 : Rat) ^ (BinaryFloat.leading 11 (n : Rat) - 52)
          ≤ 2 ^ (12 : Int) := zpow_le_zpow_right₀ (by norm_num) (by omega)
        _ = 2 ^ 12 := by norm_num
    · positivity
    · positivity
  have hle : |k| ≤ 2 ^ 53 * 2 ^ 12 := by exact_mod_cast habs
  exact lt_of_le_of_lt hle (by norm_num)

theorem eq_of_integer {a : Number} {n : Int} (hn : |n| < 2 ^ 64) (ha : a.asIntegral = some n)
    (he : a.exact = .finite n) (hl : a.toF64Lossy = BinaryFloat.ofInt n) {f : F64}
    (hf : f.isNaN = false) :
    (a.eq (.f64 f) = true ↔ a.exact = f.exact) ∧ ((Number.f64 f).eq a = true ↔ f.exact = a.exact) := by
  obtain ⟨hfin, k, hk, hklt⟩ := ofInt_spec hn
  have hnan : (BinaryFloat.ofInt n : F64).isNaN = false := by simp [BinaryFloat.isNaN, hfin]
  have hn' := abs_lt.mp hn
  cases hi : asIntegral (.f64 f) with
  | some m =>
      obtain ⟨hff, v, hv, hvle, rfl⟩ := asIntegral_f64_eq_some hi
      have hfe : f.exact = .finite v := by simp [BinaryFloat.exact, hff, hv]
      have hv' := abs_le.mp hvle
      simp only [eq, ha, hi, he, hfe, beq_iff_eq, ExtRat.finite.injEq, Int.cast_inj]
      constructor <;> constructor <;> intro h <;> omega
  | none =>
      have hne : (BinaryFloat.ofInt n : F64).exact ≠ f.exact := by
        intro h
        simp only [BinaryFloat.exact, hfin, if_true] at h
        cases hff : f.isFinite with
        | false => simp [hff, hf] at h
        | true =>
            simp only [hff, if_true, ExtRat.finite.injEq] at h
            exact absurd (asIntegral_f64_eq_none hi hff (h.symm.trans hk)) (not_lt.mpr hklt.le)
      have hne' : a.exact ≠ f.exact := by
        intro h
        rw [he] at h
        cases hff : f.isFinite with
        | false => simp [BinaryFloat.exact, hff, hf] at h
        | true =>
            simp only [BinaryFloat.exact, hff, if_true, ExtRat.finite.injEq] at h
            have := asIntegral_f64_eq_none hi hff h.symm
            exact absurd (this.trans hn) (by norm_num)
      have hl' : (Number.f64 f).toF64Lossy = f := rfl
      simp only [eq, ha, hi, hl, hl', BinaryFloat.eq_iff_exact hnan hf,
        BinaryFloat.eq_iff_exact hf hnan, hne, hne.symm, hne', hne'.symm, and_self]

theorem eq_f64 {f g : F64} (hf : f.isNaN = false) (hg : g.isNaN = false) :
    (Number.f64 f).eq (.f64 g) = true ↔ f.exact = g.exact := by
  cases hi : asIntegral (.f64 f) with
  | none => simpa only [eq, hi, toF64Lossy] using BinaryFloat.eq_iff_exact hf hg
  | some m =>
      cases hj : asIntegral (.f64 g) with
      | none => simpa only [eq, hi, hj, toF64Lossy] using BinaryFloat.eq_iff_exact hf hg
      | some l =>
          obtain ⟨hff, v, hv, hvle, rfl⟩ := asIntegral_f64_eq_some hi
          obtain ⟨hgg, w, hw, hwle, rfl⟩ := asIntegral_f64_eq_some hj
          -- the saturated end is odd, so no other float is cast to it
          have hv2 : 2 ^ 53 ≤ |v| → 2 ∣ v := BinaryFloat.even_of_value hv
          have hw2 : 2 ^ 53 ≤ |w| → 2 ∣ w := BinaryFloat.even_of_value hw
          simp only [eq, hi, hj, beq_iff_eq, BinaryFloat.exact, hff, hgg, if_true, hv, hw,
            ExtRat.finite.injEq, Int.cast_inj]
          have := abs_le.mp hvle
          have := abs_le.mp hwle
          constructor
          · intro h
            rcases abs_cases v with ⟨ha, _⟩ | ⟨ha, _⟩ <;> rcases abs_cases w with ⟨hb, _⟩ | ⟨hb, _⟩ <;>
              rw [ha] at hv2 <;> rw [hb] at hw2 <;> omega
          · rintro rfl
            rfl

theorem eq_comm (a b : Number) : a.eq b = b.eq a := by
  unfold eq
  rw [BinaryFloat.eq_comm]
  cases a.asIntegral <;> cases b.asIntegral <;> first | rfl | exact BEq.comm

theorem abs_toInt_lt (i : Int64) : |i.toInt| < 2 ^ 64 := by
  have := i.toInt_lt
  have := i.le_toInt
  exact abs_lt.mpr ⟨by omega, by omega⟩

theorem abs_toNat_lt (u : UInt64) : |(u.toNat : Int)| < 2 ^ 64 := by
  have := u.toNat_lt
  exact abs_lt.mpr ⟨by omega, by omega⟩

/-- The cross-case comparison never conflates two numbers and never separates
two spellings of one. -/
theorem eq_iff_exact {a b : Number} (ha : a.isNaN = false) (hb : b.isNaN = false) :
    a.eq b = true ↔ a.exact = b.exact := by
  cases a with
  | i64 i =>
      cases b with
      | i64 j => simp [eq, asIntegral, exact]
      | u64 v => simp only [eq, asIntegral, exact, beq_iff_eq, ExtRat.finite.injEq]; norm_cast
      | f64 g => exact (eq_of_integer (abs_toInt_lt i) rfl rfl rfl hb).1
  | u64 u =>
      cases b with
      | i64 j => simp only [eq, asIntegral, exact, beq_iff_eq, ExtRat.finite.injEq]; norm_cast
      | u64 v => simp [eq, asIntegral, exact]
      | f64 g => exact (eq_of_integer (abs_toNat_lt u) rfl (by simp [exact]) rfl hb).1
  | f64 f =>
      cases b with
      | i64 j => exact (eq_of_integer (abs_toInt_lt j) rfl rfl rfl ha).2
      | u64 v => exact (eq_of_integer (abs_toNat_lt v) rfl (by simp [exact]) rfl ha).2
      | f64 g => exact eq_f64 ha hb

theorem isNaN_of_eq {a b : Number} (h : a.eq b = true) : a.isNaN = false := by
  cases a with
  | f64 f =>
      by_contra hnan
      rw [isNaN, Bool.not_eq_false] at hnan
      have hfin : f.isFinite = false := by
        rw [BinaryFloat.isNaN, Bool.and_eq_true, Bool.not_eq_true'] at hnan
        exact hnan.1
      have hnone : asIntegral (.f64 f) = none := by simp [asIntegral, BinaryFloat.isIntegral, hfin]
      rw [eq, hnone] at h
      simp [toF64Lossy, BinaryFloat.eq, hfin, hnan] at h
  | _ => rfl

/-- A number but no NaN. -/
abbrev Proper := { n : Number // n.isNaN = false }

/-- Between proper numbers equality is that of their values, whatever the cases
that carry them, and so an equivalence. -/
theorem eq_exactly : (∀ a b : Proper, a.1.eq b.1 = true ↔ a.1.exact = b.1.exact) ∧
    Equivalence fun a b : Proper => a.1.eq b.1 = true := by
  have hexact : ∀ a b : Proper, a.1.eq b.1 = true ↔ a.1.exact = b.1.exact := by
    intro a b
    exact eq_iff_exact a.2 b.2
  refine ⟨hexact, ?_, ?_, ?_⟩
  · intro a
    exact (hexact a a).mpr rfl
  · intro a b h
    rwa [eq_comm]
  · intro a b c hab hbc
    rw [hexact] at hab hbc ⊢
    exact hab.trans hbc

end Number

end TofuSdk
