import TofuSdk.Codable

namespace TofuSdk

open ValueOf

namespace ScalarType

def integer {α : Type} (scalar : ScalarType α) (a : α) : Option Int :=
  match scalar, a with
  | .i8, i => some (Int8.toInt i)
  | .i16, i => some (Int16.toInt i)
  | .i32, i => some (Int32.toInt i)
  | .i64, i | .isize, i => some (Int64.toInt i)
  | .i128, i => some (BitVec.toInt i)
  | .u8, u => some (UInt8.toNat u)
  | .u16, u => some (UInt16.toNat u)
  | .u32, u => some (UInt32.toNat u)
  | .u64, u | .usize, u => some (UInt64.toNat u)
  | .u128, u => some (BitVec.toNat u)
  | _, _ => none

/-- The integer types that are never set. -/
def isWide {α : Type} : ScalarType α → Bool
  | .i128 | .u128 => true
  | _ => false

end ScalarType

/-- Reading a number into a field fails, or stores that number and writes it again. -/
def KeepsNumber {α : Type} (kind : ScalarType α) (n : Number) : Prop :=
  ∀ a, (Shape.scalar kind).fill (.number n) = .ok a →
    (∃ i, kind.integer a = some i ∧ n.exact = .finite i) ∧
      ∃ m, (Shape.scalar kind).peekToValue a = .ok (.number m) ∧ m.exact = n.exact

theorem f64_of_exact {f : F64} {i : Int} (h : (Number.f64 f).exact = .finite i) :
    f.isFinite = true ∧ f.value = i := by
  rw [Number.exact, BinaryFloat.exact] at h
  split_ifs at h with hf
  exact ⟨hf, ExtRat.finite.inj h⟩

theorem toInt_toI64Lossy {n : Number} {i : Int} (h : n.exact = .finite i) (hlo : -2 ^ 63 ≤ i) (hhi : i < 2 ^ 63) :
    n.toI64Lossy.toInt = i := by
  cases n with
  | i64 j => exact_mod_cast ExtRat.finite.inj h
  | u64 u =>
      have hu : (u.toNat : Int) = i := by exact_mod_cast ExtRat.finite.inj h
      change u.toBitVec.toInt = i
      rw [BitVec.toInt_eq_toNat_bmod, UInt64.toNat_toBitVec, hu]
      exact Int.bmod_eq_of_le (by omega) (by omega)
  | f64 f =>
      obtain ⟨hf, hv⟩ := f64_of_exact h
      have hsize : Int64.size = 2 ^ 64 := rfl
      rw [Number.toI64Lossy, BinaryFloat.toIntSat_of_value hf hv, Int64.toInt_ofInt, hsize,
        Int.bmod_eq_of_le (by omega) (by omega)]
      omega

theorem toNat_toU64Lossy {n : Number} {i : Int} (h : n.exact = .finite i) (hlo : 0 ≤ i) (hhi : i < 2 ^ 64) :
    (n.toU64Lossy.toNat : Int) = i := by
  cases n with
  | i64 j =>
      have hj : j.toInt = i := by exact_mod_cast ExtRat.finite.inj h
      rw [Number.toU64Lossy, Int64.toNat_toUInt64_of_le, Int64.toNatClampNeg]
      · omega
      · rw [Int64.le_iff_toInt_le, hj]
        exact hlo
  | u64 u => exact_mod_cast ExtRat.finite.inj h
  | f64 f =>
      obtain ⟨hf, hv⟩ := f64_of_exact h
      rw [Number.toU64Lossy, BinaryFloat.toIntSat_of_value hf hv, UInt64.toNat_ofNat']
      omega

section

variable {α : Type} {kind : ScalarType α} {n : Number} {lo hi i : Int} {a : α}

theorem integer_mem (hrange : kind.range = some (lo, hi)) (h : kind.integer a = some i) : lo ≤ i ∧ i ≤ hi := by
  cases kind with
  | i8 =>
      cases hrange
      cases h
      exact ⟨Int8.le_toInt a, Int.le_sub_one_of_lt (Int8.toInt_lt a)⟩
  | i16 =>
      cases hrange
      cases h
      exact ⟨Int16.le_toInt a, Int.le_sub_one_of_lt (Int16.toInt_lt a)⟩
  | i32 =>
      cases hrange
      cases h
      exact ⟨Int32.le_toInt a, Int.le_sub_one_of_lt (Int32.toInt_lt a)⟩
  | i64 | isize =>
      cases hrange
      cases h
      exact ⟨Int64.le_toInt a, Int.le_sub_one_of_lt (Int64.toInt_lt a)⟩
  | i128 =>
      cases hrange
      cases h
      exact ⟨BitVec.le_toInt a, Int.le_sub_one_of_lt BitVec.toInt_lt⟩
  | u8 =>
      cases hrange
      cases h
      have := UInt8.toNat_lt a
      omega
  | u16 =>
      cases hrange
      cases h
      have := UInt16.toNat_lt a
      omega
  | u32 =>
      cases hrange
      cases h
      have := UInt32.toNat_lt a
      omega
  | u64 | usize =>
      cases hrange
      cases h
      have := UInt64.toNat_lt a
      omega
  | u128 =>
      cases hrange
      cases h
      have := BitVec.isLt a
      omega
  | _ => cases hrange

theorem integer_setScalar (hrange : kind.range = some (lo, hi)) (hexact : n.exact = .finite i) (hlo : lo ≤ i)
    (hhi : i ≤ hi) (h : setScalar kind (.number n) = .ok a) : kind.integer a = some i := by
  cases kind with
  | i8 | i16 | i32 =>
      cases hrange
      cases h
      rw [ScalarType.integer, asNumber]
      first | rw [Int64.toInt_toInt8] | rw [Int64.toInt_toInt16] | rw [Int64.toInt_toInt32]
      rw [toInt_toI64Lossy hexact (by omega) (by omega), Int.bmod_eq_of_le (by omega) (by omega)]
  | i64 | isize =>
      cases hrange
      cases h
      exact congrArg some (toInt_toI64Lossy hexact (by omega) (by omega))
  | u8 | u16 | u32 =>
      cases hrange
      cases h
      have hn := toNat_toU64Lossy hexact (by omega) (by omega)
      refine congrArg some ?_
      rw [asNumber]
      first | rw [UInt64.toNat_toUInt8] | rw [UInt64.toNat_toUInt16] | rw [UInt64.toNat_toUInt32]
      omega
  | u64 | usize =>
      cases hrange
      cases h
      exact congrArg some (toNat_toU64Lossy hexact (by omega) (by omega))
  | i128 | u128 => cases h
  | _ => cases hrange

theorem scalarToValue_integer (hwide : kind.isWide = false) (h : kind.integer a = some i) :
    ∃ m, scalarToValue kind a = .ok (.number m) ∧ m.exact = .finite i := by
  cases kind with
  | i8 | i16 | i32 =>
      cases h
      refine ⟨_, rfl, ?_⟩
      rw [Number.exact]
      first | rw [Int8.toInt_toInt64] | rw [Int16.toInt_toInt64] | rw [Int32.toInt_toInt64]
  | i64 | isize | u64 | usize =>
      cases h
      exact ⟨_, rfl, rfl⟩
  | u8 =>
      cases h
      have hlt := UInt8.toNat_lt a
      exact ⟨_, rfl, by rw [Number.exact, Int64.toInt_ofNat_of_lt (by omega)]⟩
  | u16 =>
      cases h
      have hlt := UInt16.toNat_lt a
      exact ⟨_, rfl, by rw [Number.exact, Int64.toInt_ofNat_of_lt (by omega)]⟩
  | u32 =>
      cases h
      have hlt := UInt32.toNat_lt a
      exact ⟨_, rfl, by rw [Number.exact, Int64.toInt_ofNat_of_lt (by omega)]⟩
  | i128 | u128 => cases hwide
  | _ => cases h

theorem setScalar_isWide (hwide : kind.isWide = true) (v : Value) : setScalar kind v ≠ .ok a := by
  cases kind <;> cases hwide <;> exact fun h => by cases h

theorem setScalar_ok_of_range (hrange : kind.range = some (lo, hi)) (hwide : kind.isWide = false) (v : Value) :
    ∃ a, setScalar kind v = .ok a := by
  cases kind with
  | i128 | u128 => cases hwide
  | bool | str | string | cowStr | f64 | f32 | char | unit => cases hrange
  | _ => exact ⟨_, rfl⟩

end

/-- A number reaches an integer field unchanged exactly when it is an integer of
the field's type: nothing checks that it is one. -/
theorem keepsNumber_iff {α : Type} (kind : ScalarType α) {lo hi : Int} (hrange : kind.range = some (lo, hi))
    (n : Number) : KeepsNumber kind n ↔ kind.isWide = true ∨ ∃ i : Int, n.exact = .finite i ∧ lo ≤ i ∧ i ≤ hi := by
  constructor
  · intro h
    cases hwide : kind.isWide with
    | true => exact .inl rfl
    | false =>
        obtain ⟨a, ha⟩ := setScalar_ok_of_range hrange hwide (.number n)
        obtain ⟨⟨i, hi, hexact⟩, -⟩ := h a ha
        exact .inr ⟨i, hexact, integer_mem hrange hi⟩
  · rintro (hwide | ⟨i, hexact, hlo, hhi⟩) a ha
    · exact absurd ha (setScalar_isWide hwide _)
    · have hstored := integer_setScalar hrange hexact hlo hhi ha
      cases hwide : kind.isWide with
      | true => exact absurd ha (setScalar_isWide hwide _)
      | false =>
          obtain ⟨m, hm, hwritten⟩ := scalarToValue_integer hwide hstored
          exact ⟨⟨i, hstored, hexact⟩, m, hm, hwritten.trans hexact.symm⟩

theorem keepsNumber_port : KeepsNumber .u16 (.i64 8080) := by
  apply (keepsNumber_iff .u16 rfl (.i64 8080)).mpr
  exact .inr ⟨8080, rfl, by decide, by decide⟩

/-- Port 65616 is stored as port 80. -/
theorem port_wrapped : ¬KeepsNumber .u16 (.i64 65616) := by
  intro h
  obtain ⟨⟨i, hi, hexact⟩, -⟩ := h 80 rfl
  cases hi
  cases hexact

end TofuSdk
