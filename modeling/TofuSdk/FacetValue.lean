import TofuSdk.Wire

namespace TofuSdk

namespace Number

def saturatesU64 : Number → Bool
  | .f64 f => f.isFinite && f.value == 2 ^ 64
  | _ => false

def pastEnd (n : Number) : Bool := n.saturates || n.saturatesU64

theorem saturates_iff {n : Number} : n.saturates = true ↔ ∃ f, n = .f64 f ∧ f.exact = .finite (2 ^ 63) := by
  cases n with
  | i64 i => simp [saturates]
  | u64 u => simp [saturates]
  | f64 f =>
      by_cases hf : f.isFinite = true <;> by_cases hnan : f.isNaN = true <;>
        simp [saturates, BinaryFloat.exact, hf, hnan]

theorem saturatesU64_iff {n : Number} : n.saturatesU64 = true ↔ ∃ f, n = .f64 f ∧ f.exact = .finite (2 ^ 64) := by
  cases n with
  | i64 i => simp [saturatesU64]
  | u64 u => simp [saturatesU64]
  | f64 f =>
      by_cases hf : f.isFinite = true <;> by_cases hnan : f.isNaN = true <;>
        simp [saturatesU64, BinaryFloat.exact, hf, hnan]

end Number

namespace Crates

/-- A number of `facet_value` holds the float it was built from. -/
structure HoldsNumbers (crates : Crates) : Prop where
  fromF64 : ∀ x, crates.fromF64 x = .number ⟨.f64 x⟩
  toF64Lossy : ∀ x, crates.toF64Lossy ⟨.f64 x⟩ = x

/-- `to_i64` and `to_u64` succeed exactly on the integers in range. -/
structure CountsExactly (crates : Crates) : Prop extends HoldsNumbers crates where
  toI64 : ∀ n i, crates.toI64 n = some i ↔ n.number.exact = .finite i.toInt
  toU64 : ∀ n u, crates.toU64 n = some u ↔ n.number.exact = .finite u.toNat

/-- `to_i64` and `to_u64` hold a float against the largest integer as a float,
which rounds that up: the float just past the end becomes the largest integer. -/
structure CountsNumbers (crates : Crates) : Prop extends HoldsNumbers crates where
  toI64 : ∀ n i, crates.toI64 n = some i ↔
    n.number.exact = .finite i.toInt ∨ n.number.saturates = true ∧ i = Int64.ofInt (2 ^ 63 - 1)
  toU64 : ∀ n u, crates.toU64 n = some u ↔
    n.number.exact = .finite u.toNat ∨ n.number.saturatesU64 = true ∧ u = UInt64.ofNat (2 ^ 64 - 1)

end Crates

section

variable {crates : Crates}

theorem exists_f64_of_not_integer {n : VNumber} (hi : ∀ i : Int64, n.number.exact ≠ .finite i.toInt)
    (hu : ∀ u : UInt64, n.number.exact ≠ .finite u.toNat) : ∃ f, n.number = .f64 f := by
  cases hn : n.number with
  | i64 i => exact absurd (by rw [hn]; rfl) (hi i)
  | u64 u => exact absurd (by rw [hn]; rfl) (hu u)
  | f64 f => exact ⟨f, rfl⟩

theorem exact_jsonNumber (hnum : crates.CountsExactly) (n : VNumber) :
    (jsonNumber crates n).exact = n.number.exact := by
  rw [jsonNumber]
  cases hi : crates.toI64 n with
  | some i => exact ((hnum.toI64 n i).mp hi).symm
  | none =>
      cases hu : crates.toU64 n with
      | some u => exact ((hnum.toU64 n u).mp hu).symm
      | none =>
          obtain ⟨f, hf⟩ := exists_f64_of_not_integer
            (fun i h => Option.some_ne_none i (((hnum.toI64 n i).mpr h).symm.trans hi))
            (fun u h => Option.some_ne_none u (((hnum.toU64 n u).mpr h).symm.trans hu))
          obtain rfl : n = ⟨.f64 f⟩ := congrArg VNumber.mk hf
          exact congrArg BinaryFloat.exact (hnum.toF64Lossy f)

/-- How a number of `facet_value` is read. -/
inductive ReadsNumber : VNumber → Number → Prop
  | integer (n : VNumber) (m : Number) : m.exact = n.number.exact → m.isFinite = true → n.number.pastEnd = false →
      m.pastEnd = false → ReadsNumber n m
  | float (f : F64) : (Number.f64 f).pastEnd = false → ReadsNumber ⟨.f64 f⟩ (.f64 f)
  | signed (f : F64) : f.exact = .finite (2 ^ 63) → ReadsNumber ⟨.f64 f⟩ (.i64 (Int64.ofInt (2 ^ 63 - 1)))
  | unsigned (f : F64) : f.exact = .finite (2 ^ 64) → ReadsNumber ⟨.f64 f⟩ (.u64 (UInt64.ofNat (2 ^ 64 - 1)))

theorem ReadsNumber.of_saturates {n : VNumber} (h : n.number.saturates = true) :
    ReadsNumber n (.i64 (Int64.ofInt (2 ^ 63 - 1))) := by
  obtain ⟨f, hf, hexact⟩ := Number.saturates_iff.mp h
  obtain rfl : n = ⟨.f64 f⟩ := congrArg VNumber.mk hf
  exact .signed f hexact

theorem ReadsNumber.of_saturatesU64 {n : VNumber} (h : n.number.saturatesU64 = true) :
    ReadsNumber n (.u64 (UInt64.ofNat (2 ^ 64 - 1))) := by
  obtain ⟨f, hf, hexact⟩ := Number.saturatesU64_iff.mp h
  obtain rfl : n = ⟨.f64 f⟩ := congrArg VNumber.mk hf
  exact .unsigned f hexact

namespace Number

variable {n : Number}

theorem exact_of_saturates (h : n.saturates = true) : n.exact = .finite (2 ^ 63) := by
  obtain ⟨f, rfl, hexact⟩ := saturates_iff.mp h
  exact hexact

theorem exact_of_saturatesU64 (h : n.saturatesU64 = true) : n.exact = .finite (2 ^ 64) := by
  obtain ⟨f, rfl, hexact⟩ := saturatesU64_iff.mp h
  exact hexact

theorem pastEnd_of_i64 {i : Int64} (h : n.exact = .finite i.toInt) : n.pastEnd = false := by
  have hlt := i.toInt_lt
  rw [pastEnd, Bool.or_eq_false_iff, Bool.eq_false_iff, Bool.eq_false_iff]
  constructor
  · intro hsat
    have hvalue : (i.toInt : Rat) = 2 ^ 63 := ExtRat.finite.inj (h.symm.trans (exact_of_saturates hsat))
    have hint : i.toInt = 2 ^ 63 := by exact_mod_cast hvalue
    omega
  · intro hsat
    have hvalue : (i.toInt : Rat) = 2 ^ 64 := ExtRat.finite.inj (h.symm.trans (exact_of_saturatesU64 hsat))
    have hint : i.toInt = 2 ^ 64 := by exact_mod_cast hvalue
    omega

theorem saturatesU64_of_u64 {u : UInt64} (h : n.exact = .finite u.toNat) : n.saturatesU64 = false := by
  have hlt := u.toNat_lt
  rw [Bool.eq_false_iff]
  intro hsat
  have hvalue : (u.toNat : Rat) = 2 ^ 64 := ExtRat.finite.inj (h.symm.trans (exact_of_saturatesU64 hsat))
  have hnat : u.toNat = 2 ^ 64 := by exact_mod_cast hvalue
  omega

end Number

theorem readsNumber_jsonNumber (hnum : crates.CountsNumbers) (n : VNumber) : ReadsNumber n (jsonNumber crates n) := by
  rw [jsonNumber]
  cases hi : crates.toI64 n with
  | some i =>
      obtain hexact | ⟨hsat, rfl⟩ := (hnum.toI64 n i).mp hi
      · exact .integer n _ hexact.symm rfl (Number.pastEnd_of_i64 hexact) rfl
      · exact .of_saturates hsat
  | none =>
      have hsigned : n.number.saturates = false := by
        rw [Bool.eq_false_iff]
        exact fun h => Option.some_ne_none _ (((hnum.toI64 n _).mpr (.inr ⟨h, rfl⟩)).symm.trans hi)
      cases hu : crates.toU64 n with
      | some u =>
          obtain hexact | ⟨hsat, rfl⟩ := (hnum.toU64 n u).mp hu
          · refine .integer n _ hexact.symm rfl ?_ rfl
            rw [Number.pastEnd, hsigned, Number.saturatesU64_of_u64 hexact, Bool.or_self]
          · exact .of_saturatesU64 hsat
      | none =>
          have hunsigned : n.number.saturatesU64 = false := by
            rw [Bool.eq_false_iff]
            exact fun h => Option.some_ne_none _ (((hnum.toU64 n _).mpr (.inr ⟨h, rfl⟩)).symm.trans hu)
          have hpast : n.number.pastEnd = false := by rw [Number.pastEnd, hsigned, hunsigned, Bool.or_self]
          obtain ⟨f, hf⟩ := exists_f64_of_not_integer
            (fun i h => Option.some_ne_none i (((hnum.toI64 n i).mpr (.inl h)).symm.trans hi))
            (fun u h => Option.some_ne_none u (((hnum.toU64 n u).mpr (.inl h)).symm.trans hu))
          obtain rfl : n = ⟨.f64 f⟩ := congrArg VNumber.mk hf
          change ReadsNumber _ (.f64 (crates.toF64Lossy ⟨.f64 f⟩))
          rw [hnum.toF64Lossy f]
          exact .float f hpast

theorem Number.pastEnd_of_exact {f : F64} (h : f.exact = .finite (2 ^ 63) ∨ f.exact = .finite (2 ^ 64)) :
    (Number.f64 f).pastEnd = true := by
  rw [pastEnd, Bool.or_eq_true]
  exact h.imp (fun h => saturates_iff.mpr ⟨f, rfl, h⟩) fun h => saturatesU64_iff.mpr ⟨f, rfl, h⟩

theorem ReadsNumber.exact_iff {n : VNumber} {m : Number} (h : ReadsNumber n m) :
    m.exact = n.number.exact ↔ n.number.pastEnd = false := by
  cases h with
  | integer _ _ hexact _ hpast _ => exact iff_of_true hexact hpast
  | float f hpast => exact iff_of_true rfl hpast
  | signed f hexact =>
      refine iff_of_false ?_ (ne_of_eq_of_ne (Number.pastEnd_of_exact (.inl hexact)) Bool.true_eq_false.mp)
      change ExtRat.finite _ ≠ f.exact
      rw [hexact, ne_eq, ExtRat.finite.injEq, Int64.toInt_ofInt_of_le (by norm_num) (by norm_num)]
      norm_num
  | unsigned f hexact =>
      refine iff_of_false ?_ (ne_of_eq_of_ne (Number.pastEnd_of_exact (.inr hexact)) Bool.true_eq_false.mp)
      change ExtRat.finite _ ≠ f.exact
      rw [hexact, ne_eq, ExtRat.finite.injEq, UInt64.toNat_ofNat_of_lt' (by decide)]
      norm_num

theorem exact_jsonNumber_iff (hnum : crates.CountsNumbers) (n : VNumber) :
    (jsonNumber crates n).exact = n.number.exact ↔ n.number.pastEnd = false :=
  (readsNumber_jsonNumber hnum n).exact_iff

theorem ReadsNumber.pastEnd_eq_false {n : VNumber} {m : Number} (h : ReadsNumber n m) : m.pastEnd = false := by
  cases h with
  | integer _ _ _ _ _ hpast => exact hpast
  | float f hpast => exact hpast
  | signed | unsigned => rfl

theorem ReadsNumber.isFinite {n : VNumber} {m : Number} (h : ReadsNumber n m) (hn : n.number.isFinite = true) :
    m.isFinite = true := by
  cases h with
  | integer _ _ _ hfinite _ _ => exact hfinite
  | float f _ => exact hn
  | signed | unsigned => rfl

theorem isFinite_jsonNumber (hnum : crates.CountsNumbers) {n : VNumber} (h : n.number.isFinite = true) :
    (jsonNumber crates n).isFinite = true :=
  (readsNumber_jsonNumber hnum n).isFinite h

theorem saturates_jsonNumber (hnum : crates.CountsNumbers) (n : VNumber) : (jsonNumber crates n).saturates = false :=
  (Bool.or_eq_false_iff.mp (readsNumber_jsonNumber hnum n).pastEnd_eq_false).1

end

namespace Crates

theorem exact_eq_finite {f : F64} {n : Int} :
    f.exact = .finite n ↔ f.isFinite = true ∧ f.value = n := by
  rw [BinaryFloat.exact]
  by_cases hf : f.isFinite = true
  · rw [if_pos hf, ExtRat.finite.injEq, and_iff_right hf]
  · rw [if_neg hf]
    split_ifs <;> simp [hf]

theorem inRange_iff {f : F64} {lo hi lo' hi' : Int} (hlo : (BinaryFloat.ofInt lo : F64).exact = .finite lo')
    (hhi : (BinaryFloat.ofInt hi : F64).exact = .finite hi') :
    (f.isIntegral && (BinaryFloat.ofInt lo).le f && f.le (BinaryFloat.ofInt hi)) = true ↔
      ∃ n : Int, f.exact = .finite n ∧ lo' ≤ n ∧ n ≤ hi' := by
  obtain ⟨hlof, hlov⟩ := exact_eq_finite.mp hlo
  obtain ⟨hhif, hhiv⟩ := exact_eq_finite.mp hhi
  simp only [Bool.and_eq_true, BinaryFloat.isIntegral_iff, exact_eq_finite]
  constructor
  · rintro ⟨⟨⟨hf, n, hn⟩, hle⟩, hge⟩
    rw [Number.le_iff_value hlof hf, hlov, hn] at hle
    rw [Number.le_iff_value hf hhif, hhiv, hn] at hge
    exact ⟨n, ⟨hf, hn⟩, by exact_mod_cast hle, by exact_mod_cast hge⟩
  · rintro ⟨n, ⟨hf, hn⟩, hle, hge⟩
    rw [Number.le_iff_value hlof hf, Number.le_iff_value hf hhif, hlov, hhiv, hn]
    exact ⟨⟨⟨hf, n, rfl⟩, by exact_mod_cast hle⟩, by exact_mod_cast hge⟩

theorem exact_minI64 : (BinaryFloat.ofInt (-2 ^ 63) : F64).exact = .finite ((-2 ^ 63 : Int) : Rat) := by decide +kernel

theorem exact_maxI64 : (BinaryFloat.ofInt (2 ^ 63 - 1) : F64).exact = .finite ((2 ^ 63 : Int) : Rat) := by
  decide +kernel

theorem exact_minU64 : (BinaryFloat.ofInt 0 : F64).exact = .finite ((0 : Int) : Rat) := by decide +kernel

theorem exact_maxU64 : (BinaryFloat.ofInt (2 ^ 64 - 1) : F64).exact = .finite ((2 ^ 64 : Int) : Rat) := by
  decide +kernel

theorem exact_two63 {f : F64} : (Number.f64 f).saturates = true ↔ f.exact = .finite ((2 ^ 63 : Int) : Rat) := by
  have hcast : ((2 ^ 63 : Int) : Rat) = 2 ^ 63 := by norm_cast
  rw [Number.saturates_iff, hcast]
  constructor
  · rintro ⟨g, hg, hexact⟩
    obtain rfl := Number.f64.inj hg
    exact hexact
  · exact fun hexact => ⟨f, rfl, hexact⟩

theorem exact_two64 {f : F64} : (Number.f64 f).saturatesU64 = true ↔ f.exact = .finite ((2 ^ 64 : Int) : Rat) := by
  have hcast : ((2 ^ 64 : Int) : Rat) = 2 ^ 64 := by norm_cast
  rw [Number.saturatesU64_iff, hcast]
  constructor
  · rintro ⟨g, hg, hexact⟩
    obtain rfl := Number.f64.inj hg
    exact hexact
  · exact fun hexact => ⟨f, rfl, hexact⟩

theorem real_toI64_f64 {f : F64} {i : Int64} : real.toI64 ⟨.f64 f⟩ = some i ↔
    f.exact = .finite i.toInt ∨ (Number.f64 f).saturates = true ∧ i = Int64.ofInt (2 ^ 63 - 1) := by
  have hcast : ∀ n : Int, f.exact = .finite n → -2 ^ 63 ≤ n → n ≤ 2 ^ 63 →
      (Number.f64 f).toI64Lossy = Int64.ofInt (min (2 ^ 63 - 1) n) := by
    intro n hn hlo hhi
    obtain ⟨hf, hv⟩ := exact_eq_finite.mp hn
    rw [Number.toI64Lossy, BinaryFloat.toIntSat_of_value hf hv]
    exact congrArg Int64.ofInt (by omega)
  simp only [real, Option.ite_none_right_eq_some, inRange_iff exact_minI64 exact_maxI64, Option.some.injEq]
  constructor
  · rintro ⟨⟨n, hn, hlo, hhi⟩, rfl⟩
    rw [hcast n hn hlo hhi]
    by_cases hmax : n = 2 ^ 63
    · obtain rfl := hmax
      exact .inr ⟨exact_two63.mpr hn, rfl⟩
    · rw [min_eq_right (by omega), Int64.toInt_ofInt_of_le (by omega) (by omega)]
      exact .inl hn
  · rintro (hn | ⟨hsat, rfl⟩)
    · have hlo := i.le_toInt
      have hhi := i.toInt_lt
      refine ⟨⟨i.toInt, hn, hlo, by omega⟩, ?_⟩
      rw [hcast i.toInt hn hlo (by omega), min_eq_right (by omega), Int64.ofInt_toInt]
    · have hn := exact_two63.mp hsat
      exact ⟨⟨2 ^ 63, hn, by norm_num, le_rfl⟩, hcast _ hn (by norm_num) le_rfl⟩

theorem real_toU64_f64 {f : F64} {u : UInt64} : real.toU64 ⟨.f64 f⟩ = some u ↔
    f.exact = .finite u.toNat ∨ (Number.f64 f).saturatesU64 = true ∧ u = UInt64.ofNat (2 ^ 64 - 1) := by
  have hcast : ∀ n : Int, f.exact = .finite n → 0 ≤ n → n ≤ 2 ^ 64 →
      (Number.f64 f).toU64Lossy = UInt64.ofNat (min (2 ^ 64 - 1) n).toNat := by
    intro n hn hlo hhi
    obtain ⟨hf, hv⟩ := exact_eq_finite.mp hn
    rw [Number.toU64Lossy, BinaryFloat.toIntSat_of_value hf hv]
    exact congrArg UInt64.ofNat (by omega)
  simp only [real, Option.ite_none_right_eq_some, inRange_iff exact_minU64 exact_maxU64, Option.some.injEq]
  constructor
  · rintro ⟨⟨n, hn, hlo, hhi⟩, rfl⟩
    rw [hcast n hn hlo hhi]
    by_cases hmax : n = 2 ^ 64
    · obtain rfl := hmax
      exact .inr ⟨exact_two64.mpr hn, rfl⟩
    · have hnat : ((n.toNat : Nat) : Rat) = n := by exact_mod_cast Int.toNat_of_nonneg hlo
      rw [min_eq_right (by omega), UInt64.toNat_ofNat_of_lt' (by simp only [UInt64.size]; omega), hnat]
      exact .inl hn
  · rintro (hn | ⟨hsat, rfl⟩)
    · have hhi := u.toNat_lt
      have hn' : f.exact = .finite ((u.toNat : Int) : Rat) := by rw [Int.cast_natCast, hn]
      refine ⟨⟨u.toNat, hn', by omega, by omega⟩, ?_⟩
      rw [hcast u.toNat hn' (by omega) (by omega), min_eq_right (by omega), Int.toNat_natCast, UInt64.ofNat_toNat]
    · have hn := exact_two64.mp hsat
      exact ⟨⟨2 ^ 64, hn, by norm_num, le_rfl⟩, hcast _ hn (by norm_num) le_rfl⟩

theorem real_toI64_u64 {u : UInt64} {i : Int64} : real.toI64 ⟨.u64 u⟩ = some i ↔ u.toNat = i.toInt := by
  have hcast : u.toNat < 2 ^ 63 → u.toInt64.toInt = u.toNat := by
    intro hu
    change u.toBitVec.toInt = _
    rw [BitVec.toInt_eq_toNat_bmod, UInt64.toNat_toBitVec, Int.bmod_eq_of_le (by omega) (by omega)]
  have hhi := i.toInt_lt
  simp only [real, Option.ite_none_right_eq_some, Option.some.injEq]
  constructor
  · rintro ⟨hu, rfl⟩
    exact (hcast hu).symm
  · intro h
    have hu : u.toNat < 2 ^ 63 := by omega
    exact ⟨hu, Int64.toInt_inj.mp ((hcast hu).trans h)⟩

theorem real_toU64_i64 {i : Int64} {u : UInt64} : real.toU64 ⟨.i64 i⟩ = some u ↔ i.toInt = u.toNat := by
  have hcast : 0 ≤ i.toInt → (i.toUInt64.toNat : Int) = i.toInt := by
    intro hi
    rw [Int64.toNat_toUInt64_of_le (Int64.le_iff_toInt_le.mpr hi), Int64.toNatClampNeg]
    omega
  simp only [real, Option.ite_none_right_eq_some, Option.some.injEq]
  constructor
  · rintro ⟨hi, rfl⟩
    exact (hcast hi).symm
  · intro h
    have hi : 0 ≤ i.toInt := by omega
    exact ⟨hi, UInt64.toNat_inj.mp (by have := hcast hi; omega)⟩

theorem real_countsNumbers : real.CountsNumbers where
  fromF64 _ := rfl
  toF64Lossy _ := rfl
  toI64 n i := by
    obtain ⟨number⟩ := n
    cases number with
    | f64 f => exact real_toI64_f64
    | i64 j => simp [real, Number.exact, Number.saturates, Int64.toInt_inj]
    | u64 u =>
        rw [real_toI64_u64]
        simp only [Number.exact, Number.saturates, Bool.false_eq_true, false_and, or_false, ExtRat.finite.injEq]
        norm_cast
  toU64 n u := by
    obtain ⟨number⟩ := n
    cases number with
    | f64 f => exact real_toU64_f64
    | i64 j =>
        rw [real_toU64_i64]
        simp only [Number.exact, Number.saturatesU64, Bool.false_eq_true, false_and, or_false, ExtRat.finite.injEq]
        norm_cast
    | u64 v => simp [real, Number.exact, Number.saturatesU64, UInt64.toNat_inj]

/-- The same crates, with conversions that no float just past the end gets through. -/
def exact : Crates := { real with
  toI64 := fun n => match n.number.exact with
    | .finite q => if q.den = 1 ∧ -2 ^ 63 ≤ q.num ∧ q.num < 2 ^ 63 then some (Int64.ofInt q.num) else none
    | _ => none
  toU64 := fun n => match n.number.exact with
    | .finite q => if q.den = 1 ∧ 0 ≤ q.num ∧ q.num < 2 ^ 64 then some (UInt64.ofNat q.num.toNat) else none
    | _ => none }

theorem exact_countsExactly : exact.CountsExactly where
  fromF64 _ := rfl
  toF64Lossy _ := rfl
  toI64 n i := by
    have hlo := i.le_toInt
    have hhi := i.toInt_lt
    simp only [exact]
    cases hexact : n.number.exact with
    | finite q =>
        simp only [Option.ite_none_right_eq_some, Option.some.injEq, ExtRat.finite.injEq]
        constructor
        · rintro ⟨⟨hden, hle, hlt⟩, rfl⟩
          rw [Int64.toInt_ofInt_of_le (by omega) (by omega), (Rat.den_eq_one_iff q).mp hden]
        · rintro rfl
          exact ⟨⟨Rat.den_intCast _, by rwa [Rat.num_intCast], by rwa [Rat.num_intCast]⟩,
            by rw [Rat.num_intCast, Int64.ofInt_toInt]⟩
    | _ => simp
  toU64 n u := by
    have hhi := u.toNat_lt
    simp only [exact]
    cases hexact : n.number.exact with
    | finite q =>
        simp only [Option.ite_none_right_eq_some, Option.some.injEq, ExtRat.finite.injEq]
        constructor
        · rintro ⟨⟨hden, hle, hlt⟩, rfl⟩
          have hnat : (q.num.toNat : Rat) = q := by
            rw [← Int.cast_natCast, Int.toNat_of_nonneg hle, (Rat.den_eq_one_iff q).mp hden]
          rw [UInt64.toNat_ofNat_of_lt' (by simp only [UInt64.size]; omega), hnat]
        · rintro rfl
          exact ⟨⟨Rat.den_natCast _, by simp, by simpa using hhi⟩, by simp⟩
    | _ => simp

end Crates

end TofuSdk
