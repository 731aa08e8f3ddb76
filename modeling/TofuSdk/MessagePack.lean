import TofuSdk.BinaryFloat
import Mathlib.Data.Nat.Digits.Lemmas

namespace TofuSdk

abbrev Bytes := List UInt8

structure Integer where
  val : Int
  lower : -2 ^ 63 ≤ val
  upper : val < 2 ^ 64
deriving DecidableEq

/-- Text, or the bytes of a string that is not UTF-8. -/
inductive Utf8String
  | text (s : String)
  | raw (bytes : { b : ByteArray // b.validateUTF8 = false })

/-- A MessagePack tree. -/
inductive Mp
  | nil
  | boolean (b : Bool)
  | integer (i : Integer)
  | f32 (f : F32)
  | f64 (f : F64)
  | string (s : Utf8String)
  | binary (bytes : Bytes)
  | array (items : List Mp)
  | map (pairs : List (Mp × Mp))
  | ext (kind : UInt8) (bytes : Bytes)
deriving Inhabited

namespace Mp

@[elab_as_elim] theorem induct {P : Mp → Prop} (nil : P .nil) (boolean : ∀ b, P (.boolean b))
    (integer : ∀ i, P (.integer i)) (f32 : ∀ f, P (.f32 f)) (f64 : ∀ f, P (.f64 f))
    (string : ∀ s, P (.string s)) (binary : ∀ bytes, P (.binary bytes))
    (array : ∀ items, (∀ mp ∈ items, P mp) → P (.array items))
    (map : ∀ pairs : List (Mp × Mp), (∀ p ∈ pairs, P p.1 ∧ P p.2) → P (.map pairs))
    (ext : ∀ kind bytes, P (.ext kind bytes)) (mp : Mp) : P mp :=
  Mp.rec (motive_1 := P) (motive_2 := fun items => ∀ mp ∈ items, P mp)
    (motive_3 := fun pairs => ∀ p ∈ pairs, P p.1 ∧ P p.2) (motive_4 := fun p => P p.1 ∧ P p.2)
    nil boolean integer f32 f64 string binary array map ext
    (by simp) (fun mp mps h hs => by simpa using ⟨h, hs⟩)
    (by simp) (fun p ps h hs => List.forall_mem_cons.mpr ⟨h, hs⟩) (fun _ _ h h' => ⟨h, h'⟩) mp

end Mp

namespace Utf8String

def asBytes : Utf8String → Bytes
  | .text s => s.toUTF8.data.toList
  | .raw bytes => bytes.val.data.toList

def ofBytes (bytes : Bytes) : Utf8String :=
  if h : (⟨bytes.toArray⟩ : ByteArray).validateUTF8 = true then
    .text (String.fromUTF8 ⟨bytes.toArray⟩ (ByteArray.validateUTF8_eq_true_iff.mp h))
  else .raw ⟨⟨bytes.toArray⟩, Bool.eq_false_iff.mpr h⟩

@[simp] theorem ofBytes_asBytes (s : Utf8String) : ofBytes s.asBytes = s := by
  cases s with
  | text s =>
      have hb : (⟨(asBytes (.text s)).toArray⟩ : ByteArray) = s.toByteArray := by
        simp [asBytes]
      have hv : (⟨(asBytes (.text s)).toArray⟩ : ByteArray).validateUTF8 = true := by
        rw [hb]
        exact ByteArray.validateUTF8_eq_true_iff.mpr s.isValidUTF8
      rw [ofBytes, dif_pos hv]
      exact congrArg text (String.toByteArray_inj.mp hb)
  | raw bytes =>
      have hb : (⟨(asBytes (.raw bytes)).toArray⟩ : ByteArray) = bytes.val := by simp [asBytes]
      have hv : ¬ (⟨(asBytes (.raw bytes)).toArray⟩ : ByteArray).validateUTF8 = true := by
        rw [hb, bytes.property]
        simp
      rw [ofBytes, dif_neg hv]
      exact congrArg raw (Subtype.ext hb)

end Utf8String

namespace MessagePack

/-- The kinds of lead byte of the format. The format leaves one byte unused;
here it escapes a length that 32 bits cannot hold. -/
inductive Tag
  | null | escape | no | yes | fixint | u8 | u16 | u32 | u64 | negfix | i8 | i16 | i32 | i64 | f32 | f64
  | fixstr | str8 | str16 | str32 | bin8 | bin16 | bin32 | fixarray | array16 | array32
  | fixmap | map16 | map32 | fixext1 | fixext2 | fixext4 | fixext8 | fixext16 | ext8 | ext16 | ext32
deriving DecidableEq

namespace Tag

def form : Tag → Nat × Nat × Nat
  | null => (0xc0, 1, 0)
  | escape => (0xc1, 1, 1)
  | no => (0xc2, 1, 0)
  | yes => (0xc3, 1, 0)
  | fixint => (0x00, 128, 0)
  | u8 => (0xcc, 1, 1)
  | u16 => (0xcd, 1, 2)
  | u32 => (0xce, 1, 4)
  | u64 => (0xcf, 1, 8)
  | negfix => (0xe0, 32, 0)
  | i8 => (0xd0, 1, 1)
  | i16 => (0xd1, 1, 2)
  | i32 => (0xd2, 1, 4)
  | i64 => (0xd3, 1, 8)
  | f32 => (0xca, 1, 4)
  | f64 => (0xcb, 1, 8)
  | fixstr => (0xa0, 32, 0)
  | str8 => (0xd9, 1, 1)
  | str16 => (0xda, 1, 2)
  | str32 => (0xdb, 1, 4)
  | bin8 => (0xc4, 1, 1)
  | bin16 => (0xc5, 1, 2)
  | bin32 => (0xc6, 1, 4)
  | fixarray => (0x90, 16, 0)
  | array16 => (0xdc, 1, 2)
  | array32 => (0xdd, 1, 4)
  | fixmap => (0x80, 16, 0)
  | map16 => (0xde, 1, 2)
  | map32 => (0xdf, 1, 4)
  | fixext1 => (0xd4, 1, 0)
  | fixext2 => (0xd5, 1, 0)
  | fixext4 => (0xd6, 1, 0)
  | fixext8 => (0xd7, 1, 0)
  | fixext16 => (0xd8, 1, 0)
  | ext8 => (0xc7, 1, 1)
  | ext16 => (0xc8, 1, 2)
  | ext32 => (0xc9, 1, 4)

def base (t : Tag) : Nat := t.form.1

def count (t : Tag) : Nat := t.form.2.1

def width (t : Tag) : Nat := t.form.2.2

def ofLead (b : Nat) : Option Tag :=
  [null, escape, no, yes, fixint, u8, u16, u32, u64, negfix, i8, i16, i32, i64, f32, f64, fixstr, str8,
    str16, str32, bin8, bin16, bin32, fixarray, array16, array32, fixmap, map16, map32, fixext1,
    fixext2, fixext4, fixext8, fixext16, ext8, ext16, ext32].find? fun t =>
      decide (t.base ≤ b ∧ b < t.base + t.count)

theorem ofLead_base (t : Tag) {i : Nat} (hi : i < t.count) :
    ofLead (t.base + i) = some t ∧ t.base + i < 256 := by
  have h : ∀ t : Tag, ∀ i : Fin t.count, ofLead (t.base + i) = some t ∧ t.base + i < 256 := by
    intro t
    cases t <;> decide
  exact h t ⟨i, hi⟩

end Tag

def bigEndian : Nat → Nat → Bytes
  | 0, _ => []
  | k + 1, n => bigEndian k (n / 256) ++ [UInt8.ofNat (n % 256)]

def ofBigEndian (bytes : Bytes) : Nat := bytes.foldl (fun n b => n * 256 + b.toNat) 0

theorem length_bigEndian (k n : Nat) : (bigEndian k n).length = k := by
  induction k generalizing n with
  | zero => rfl
  | succ k ih => rw [bigEndian, List.length_append, ih, List.length_singleton]

theorem ofBigEndian_bigEndian (k n : Nat) (h : n < 256 ^ k) : ofBigEndian (bigEndian k n) = n := by
  induction k generalizing n with
  | zero =>
      rw [pow_zero, Nat.lt_one_iff] at h
      rw [h]
      rfl
  | succ k ih =>
      have hdiv : n / 256 < 256 ^ k := Nat.div_lt_of_lt_mul (by rwa [pow_succ'] at h)
      have hlast : (UInt8.ofNat (n % 256)).toNat = n % 256 := by simp
      have hfold := ih _ hdiv
      rw [ofBigEndian] at hfold
      rw [bigEndian, ofBigEndian, List.foldl_concat, hlast, hfold, Nat.div_add_mod']

def writeTag (t : Tag) (n : Nat) : Bytes :=
  UInt8.ofNat (t.base + n / 256 ^ t.width) :: bigEndian t.width (n % 256 ^ t.width)

def readTag : Bytes → Option (Tag × Nat × Bytes)
  | [] => none
  | b :: bytes => do
      let t ← Tag.ofLead b.toNat
      if bytes.length < t.width then none
      else some (t, (b.toNat - t.base) * 256 ^ t.width + ofBigEndian (bytes.take t.width), bytes.drop t.width)

def Tag.fits (t : Tag) (n : Nat) : Prop := n < t.count * 256 ^ t.width

instance (t : Tag) (n : Nat) : Decidable (t.fits n) := inferInstanceAs (Decidable (_ < _))

theorem readTag_writeTag {t : Tag} {n : Nat} (h : t.fits n) (rest : Bytes) :
    readTag (writeTag t n ++ rest) = some (t, n, rest) := by
  have hpos : 0 < 256 ^ t.width := by positivity
  obtain ⟨hlead, hlt⟩ := t.ofLead_base (Nat.div_lt_of_lt_mul (by rwa [Tag.fits, mul_comm] at h))
  have hb : (UInt8.ofNat (t.base + n / 256 ^ t.width)).toNat = t.base + n / 256 ^ t.width := by
    rw [UInt8.toNat_ofNat']
    exact Nat.mod_eq_of_lt hlt
  have hlen := length_bigEndian t.width (n % 256 ^ t.width)
  rw [writeTag, List.cons_append, readTag, hb, hlead]
  simp only [Option.bind_eq_bind, Option.bind_some, List.length_append, hlen]
  rw [if_neg (by omega), List.take_left' hlen, List.drop_left' hlen,
    ofBigEndian_bigEndian _ _ (Nat.mod_lt _ hpos), Nat.add_sub_cancel_left, Nat.div_add_mod']

inductive Sized
  | text | binary | array | map | ext
deriving DecidableEq

inductive Head
  | null
  | boolean (b : Bool)
  | integer (i : Integer)
  | f32 (n : Nat)
  | f64 (n : Nat)
  | sized (s : Sized) (n : Nat)

namespace Sized

def tags : Sized → List Tag
  | text => [.fixstr, .str8, .str16, .str32]
  | binary => [.bin8, .bin16, .bin32]
  | array => [.fixarray, .array16, .array32]
  | map => [.fixmap, .map16, .map32]
  | ext => [.ext8, .ext16, .ext32]

def code : Sized → Nat
  | text => 0
  | binary => 1
  | array => 2
  | map => 3
  | ext => 4

def ofCode (n : Nat) : Option Sized := [text, binary, array, map, ext].find? fun s => s.code = n

end Sized

def unary : Bytes → Option (Nat × Bytes)
  | [] => none
  | b :: bytes =>
      if b = 0 then some (0, bytes) else (unary bytes).map fun p => (p.1 + 1, p.2)

theorem unary_replicate (n : Nat) (rest : Bytes) :
    unary (List.replicate n 1 ++ (0 :: rest)) = some (n, rest) := by
  induction n with
  | zero => rfl
  | succ n ih =>
      rw [List.replicate_succ, List.cons_append, unary, ih]
      rfl

def writeSize (s : Sized) (n : Nat) : Bytes :=
  match s.tags.find? fun t => t.fits n with
  | some t => writeTag t n
  | none => writeTag .escape s.code ++ (List.replicate n 1 ++ [0])

def writeInteger (i : Integer) : Bytes :=
  if 2 ^ 32 ≤ i.val then writeTag .u64 i.val.toNat
  else if 2 ^ 16 ≤ i.val then writeTag .u32 i.val.toNat
  else if 2 ^ 8 ≤ i.val then writeTag .u16 i.val.toNat
  else if 2 ^ 7 ≤ i.val then writeTag .u8 i.val.toNat
  else if 0 ≤ i.val then writeTag .fixint i.val.toNat
  else if -2 ^ 5 ≤ i.val then writeTag .negfix (i.val + 2 ^ 5).toNat
  else if -2 ^ 7 ≤ i.val then writeTag .i8 (i.val + 2 ^ 8).toNat
  else if -2 ^ 15 ≤ i.val then writeTag .i16 (i.val + 2 ^ 16).toNat
  else if -2 ^ 31 ≤ i.val then writeTag .i32 (i.val + 2 ^ 32).toNat
  else writeTag .i64 (i.val + 2 ^ 64).toNat

def writeExt (n : Nat) : Bytes :=
  match n with
  | 1 => writeTag .fixext1 0
  | 2 => writeTag .fixext2 0
  | 4 => writeTag .fixext4 0
  | 8 => writeTag .fixext8 0
  | 16 => writeTag .fixext16 0
  | n => writeSize .ext n

def writeHead : Head → Bytes
  | .null => writeTag .null 0
  | .boolean b => writeTag (if b then .yes else .no) 0
  | .integer i => writeInteger i
  | .f32 n => writeTag .f32 n
  | .f64 n => writeTag .f64 n
  | .sized .ext n => writeExt n
  | .sized s n => writeSize s n

def integer? (i : Int) : Option Head :=
  if h : -2 ^ 63 ≤ i ∧ i < 2 ^ 64 then some (.integer ⟨i, h.1, h.2⟩) else none

def headOf (t : Tag) (n : Nat) (rest : Bytes) : Option (Head × Bytes) :=
  match t with
  | .null => some (.null, rest)
  | .escape => do
      let s ← Sized.ofCode n
      let (n, rest) ← unary rest
      some (.sized s n, rest)
  | .no => some (.boolean false, rest)
  | .yes => some (.boolean true, rest)
  | .fixint | .u8 | .u16 | .u32 | .u64 => (integer? n).map (·, rest)
  | .negfix => (integer? (n - 2 ^ 5)).map (·, rest)
  | .i8 => (integer? (n - 2 ^ 8)).map (·, rest)
  | .i16 => (integer? (n - 2 ^ 16)).map (·, rest)
  | .i32 => (integer? (n - 2 ^ 32)).map (·, rest)
  | .i64 => (integer? (n - 2 ^ 64)).map (·, rest)
  | .f32 => some (.f32 n, rest)
  | .f64 => some (.f64 n, rest)
  | .fixstr | .str8 | .str16 | .str32 => some (.sized .text n, rest)
  | .bin8 | .bin16 | .bin32 => some (.sized .binary n, rest)
  | .fixarray | .array16 | .array32 => some (.sized .array n, rest)
  | .fixmap | .map16 | .map32 => some (.sized .map n, rest)
  | .fixext1 => some (.sized .ext 1, rest)
  | .fixext2 => some (.sized .ext 2, rest)
  | .fixext4 => some (.sized .ext 4, rest)
  | .fixext8 => some (.sized .ext 8, rest)
  | .fixext16 => some (.sized .ext 16, rest)
  | .ext8 | .ext16 | .ext32 => some (.sized .ext n, rest)

def Head.fits : Head → Prop
  | .f32 n => n < 2 ^ 32
  | .f64 n => n < 2 ^ 64
  | _ => True

def readHead (bytes : Bytes) : Option (Head × Bytes) := do
  let (t, n, rest) ← readTag bytes
  headOf t n rest

theorem readHead_writeTag {t : Tag} {n : Nat} (h : t.fits n) (rest : Bytes) :
    readHead (writeTag t n ++ rest) = headOf t n rest := by
  rw [readHead, readTag_writeTag h]
  rfl

theorem integer?_val (i : Integer) : integer? i.val = some (.integer i) :=
  dif_pos ⟨i.lower, i.upper⟩

theorem integer?_toNat {i : Integer} (h : 0 ≤ i.val) : integer? i.val.toNat = some (.integer i) := by
  rw [Int.toNat_of_nonneg h, integer?_val]

theorem integer?_toNat_sub {i : Integer} (k : Int) (h : 0 ≤ i.val + k) :
    integer? ((i.val + k).toNat - k) = some (.integer i) := by
  rw [Int.toNat_of_nonneg h, add_sub_cancel_right, integer?_val]

theorem Tag.fits_of_toNat {t : Tag} {i : Int} {count width : Nat} (hform : t.form.2 = (count, width))
    (h : i < count * 256 ^ width) (hpos : 0 ≤ i) : t.fits i.toNat := by
  rw [Tag.fits, Tag.count, Tag.width, hform, ← Int.ofNat_lt, Int.toNat_of_nonneg hpos]
  exact_mod_cast h

theorem readHead_writeInteger (i : Integer) (rest : Bytes) :
    readHead (writeInteger i ++ rest) = some (.integer i, rest) := by
  have hlo := i.lower
  have hhi := i.upper
  have hnonneg : ∀ (t : Tag) (count width : Nat), t.form.2 = (count, width) → i.val < count * 256 ^ width →
      0 ≤ i.val → headOf t i.val.toNat rest = (integer? i.val.toNat).map (·, rest) →
      readHead (writeTag t i.val.toNat ++ rest) = some (.integer i, rest) := by
    intro t count width hform ht h hhead
    rw [readHead_writeTag (Tag.fits_of_toNat hform ht h), hhead, integer?_toNat h]
    rfl
  have hneg : ∀ (t : Tag) (k : Int) (count width : Nat), t.form.2 = (count, width) →
      i.val + k < count * 256 ^ width → 0 ≤ i.val + k →
      headOf t (i.val + k).toNat rest = (integer? ((i.val + k).toNat - k)).map (·, rest) →
      readHead (writeTag t (i.val + k).toNat ++ rest) = some (.integer i, rest) := by
    intro t k count width hform ht h hhead
    rw [readHead_writeTag (Tag.fits_of_toNat hform ht h), hhead, integer?_toNat_sub k h]
    rfl
  rw [writeInteger]
  by_cases hu64 : 2 ^ 32 ≤ i.val
  · rw [if_pos hu64]
    exact hnonneg .u64 1 8 rfl (by omega) (by omega) rfl
  rw [if_neg hu64]
  by_cases hu32 : 2 ^ 16 ≤ i.val
  · rw [if_pos hu32]
    exact hnonneg .u32 1 4 rfl (by omega) (by omega) rfl
  rw [if_neg hu32]
  by_cases hu16 : 2 ^ 8 ≤ i.val
  · rw [if_pos hu16]
    exact hnonneg .u16 1 2 rfl (by omega) (by omega) rfl
  rw [if_neg hu16]
  by_cases hu8 : 2 ^ 7 ≤ i.val
  · rw [if_pos hu8]
    exact hnonneg .u8 1 1 rfl (by omega) (by omega) rfl
  rw [if_neg hu8]
  by_cases hfixint : 0 ≤ i.val
  · rw [if_pos hfixint]
    exact hnonneg .fixint 128 0 rfl (by omega) (by omega) rfl
  rw [if_neg hfixint]
  by_cases hnegfix : -2 ^ 5 ≤ i.val
  · rw [if_pos hnegfix]
    exact hneg .negfix (2 ^ 5) 32 0 rfl (by omega) (by omega) rfl
  rw [if_neg hnegfix]
  by_cases hi8 : -2 ^ 7 ≤ i.val
  · rw [if_pos hi8]
    exact hneg .i8 (2 ^ 8) 1 1 rfl (by omega) (by omega) rfl
  rw [if_neg hi8]
  by_cases hi16 : -2 ^ 15 ≤ i.val
  · rw [if_pos hi16]
    exact hneg .i16 (2 ^ 16) 1 2 rfl (by omega) (by omega) rfl
  rw [if_neg hi16]
  by_cases hi32 : -2 ^ 31 ≤ i.val
  · rw [if_pos hi32]
    exact hneg .i32 (2 ^ 32) 1 4 rfl (by omega) (by omega) rfl
  rw [if_neg hi32]
  exact hneg .i64 (2 ^ 64) 1 8 rfl (by omega) (by omega) rfl

theorem readHead_writeSize (s : Sized) (n : Nat) (rest : Bytes) :
    readHead (writeSize s n ++ rest) = some (.sized s n, rest) := by
  rw [writeSize]
  split
  · rename_i t ht
    have hfits : t.fits n := by simpa using List.find?_some ht
    have hmem := List.mem_of_find?_eq_some ht
    rw [readHead_writeTag hfits]
    cases s <;> simp only [Sized.tags, List.mem_cons, List.not_mem_nil, or_false] at hmem <;>
      rcases hmem with rfl | rfl | rfl | rfl <;> rfl
  · have hfits : Tag.fits .escape s.code := by cases s <;> decide
    rw [List.append_assoc, readHead_writeTag hfits, List.append_assoc]
    have hcode : Sized.ofCode s.code = some s := by cases s <;> rfl
    simp [headOf, hcode, unary_replicate]

theorem readHead_writeExt (n : Nat) (rest : Bytes) :
    readHead (writeExt n ++ rest) = some (.sized .ext n, rest) := by
  unfold writeExt
  split
  · rw [readHead_writeTag (by decide)]
    rfl
  · rw [readHead_writeTag (by decide)]
    rfl
  · rw [readHead_writeTag (by decide)]
    rfl
  · rw [readHead_writeTag (by decide)]
    rfl
  · rw [readHead_writeTag (by decide)]
    rfl
  · exact readHead_writeSize .ext n rest

theorem readHead_writeHead {head : Head} (h : head.fits) (rest : Bytes) :
    readHead (writeHead head ++ rest) = some (head, rest) := by
  cases head with
  | null => exact readHead_writeTag (t := .null) (by decide) rest
  | boolean b => cases b <;> exact readHead_writeTag (by decide) rest
  | integer i => exact readHead_writeInteger i rest
  | f32 n => exact readHead_writeTag (t := .f32) (lt_of_lt_of_eq h (by decide)) rest
  | f64 n => exact readHead_writeTag (t := .f64) (lt_of_lt_of_eq h (by decide)) rest
  | sized s n =>
      cases s with
      | ext => exact readHead_writeExt n rest
      | _ => exact readHead_writeSize _ n rest

theorem length_writeHead_pos {head : Head} (h : head.fits) : 0 < (writeHead head).length := by
  rw [List.length_pos_iff]
  intro hnil
  have hread := readHead_writeHead h []
  rw [hnil] at hread
  cases hread

section

variable {ew mw : Nat}

def bits (x : BinaryFloat ew mw) : Nat :=
  (x.sign.toNat * 2 ^ ew + x.exponent.toNat) * 2 ^ mw + x.fraction.toNat

def ofBits (n : Nat) : BinaryFloat ew mw :=
  ⟨n / 2 ^ mw / 2 ^ ew = 1, BitVec.ofNat ew (n / 2 ^ mw), BitVec.ofNat mw n⟩

theorem bits_div (x : BinaryFloat ew mw) :
    bits x / 2 ^ mw = x.sign.toNat * 2 ^ ew + x.exponent.toNat := by
  rw [bits, add_comm, Nat.add_mul_div_right _ _ (by positivity), Nat.div_eq_of_lt x.fraction.isLt, zero_add]

theorem ofBits_bits (x : BinaryFloat ew mw) : ofBits (bits x) = x := by
  have hsign : (x.sign.toNat * 2 ^ ew + x.exponent.toNat) / 2 ^ ew = x.sign.toNat := by
    rw [add_comm, Nat.add_mul_div_right _ _ (by positivity), Nat.div_eq_of_lt x.exponent.isLt, zero_add]
  have hexp : BitVec.ofNat ew (x.sign.toNat * 2 ^ ew + x.exponent.toNat) = x.exponent := by
    apply BitVec.eq_of_toNat_eq
    rw [BitVec.toNat_ofNat, add_comm, Nat.add_mul_mod_self_right, Nat.mod_eq_of_lt x.exponent.isLt]
  have hfrac : BitVec.ofNat mw (bits x) = x.fraction := by
    apply BitVec.eq_of_toNat_eq
    rw [BitVec.toNat_ofNat, bits, add_comm, Nat.add_mul_mod_self_right, Nat.mod_eq_of_lt x.fraction.isLt]
  rw [ofBits, bits_div, hsign, hexp, hfrac]
  obtain ⟨sign, exponent, fraction⟩ := x
  cases sign <;> rfl

theorem bits_lt (x : BinaryFloat ew mw) : bits x < 2 ^ (1 + ew + mw) := by
  rw [pow_add, ← Nat.div_lt_iff_lt_mul (by positivity), bits_div, pow_add]
  have hsign : x.sign.toNat ≤ 1 := Bool.toNat_le x.sign
  have hexp := x.exponent.isLt
  nlinarith

end

def readMany {α : Type} (read : Bytes → Option (α × Bytes)) : Nat → Bytes → Option (List α × Bytes)
  | 0, bytes => some ([], bytes)
  | n + 1, bytes => do
      let (a, bytes) ← read bytes
      let (as, bytes) ← readMany read n bytes
      some (a :: as, bytes)

def readPair {α : Type} (read : Bytes → Option (α × Bytes)) (bytes : Bytes) : Option ((α × α) × Bytes) := do
  let (a, bytes) ← read bytes
  let (b, bytes) ← read bytes
  some ((a, b), bytes)

def readBytes (n : Nat) (bytes : Bytes) : Option (Bytes × Bytes) :=
  if bytes.length < n then none else some (bytes.take n, bytes.drop n)

theorem readBytes_append (body rest : Bytes) :
    readBytes body.length (body ++ rest) = some (body, rest) := by
  simp [readBytes]

mutual

def write (mp : Mp) : Bytes :=
  match mp with
  | .nil => writeHead .null
  | .boolean b => writeHead (.boolean b)
  | .integer i => writeHead (.integer i)
  | .f32 f => writeHead (.f32 (bits f))
  | .f64 f => writeHead (.f64 (bits f))
  | .string s => writeHead (.sized .text s.asBytes.length) ++ s.asBytes
  | .binary bytes => writeHead (.sized .binary bytes.length) ++ bytes
  | .array items => writeHead (.sized .array items.length) ++ writeItems items
  | .map pairs => writeHead (.sized .map pairs.length) ++ writePairs pairs
  | .ext kind bytes => writeHead (.sized .ext bytes.length) ++ kind :: bytes
termination_by structural mp

def writeItems (items : List Mp) : Bytes :=
  match items with
  | [] => []
  | mp :: mps => write mp ++ writeItems mps
termination_by structural items

def writePairs (pairs : List (Mp × Mp)) : Bytes :=
  match pairs with
  | [] => []
  | (k, v) :: pairs => write k ++ (write v ++ writePairs pairs)
termination_by structural pairs

end

def readBody (readTree : Bytes → Option (Mp × Bytes)) (head : Head) (rest : Bytes) :
    Option (Mp × Bytes) :=
  match head with
  | .null => some (.nil, rest)
  | .boolean b => some (.boolean b, rest)
  | .integer i => some (.integer i, rest)
  | .f32 n => some (.f32 (ofBits n), rest)
  | .f64 n => some (.f64 (ofBits n), rest)
  | .sized .text n => do
      let (body, rest) ← readBytes n rest
      some (.string (.ofBytes body), rest)
  | .sized .binary n => do
      let (body, rest) ← readBytes n rest
      some (.binary body, rest)
  | .sized .array n => do
      let (items, rest) ← readMany readTree n rest
      some (.array items, rest)
  | .sized .map n => do
      let (pairs, rest) ← readMany (readPair readTree) n rest
      some (.map pairs, rest)
  | .sized .ext n => do
      let (body, rest) ← readBytes (n + 1) rest
      match body with
      | kind :: body => some (.ext kind body, rest)
      | [] => none

def readTree : Nat → Bytes → Option (Mp × Bytes)
  | 0, _ => none
  | fuel + 1, bytes => do
      let (head, rest) ← readHead bytes
      readBody (readTree fuel) head rest

def read (bytes : Bytes) : Option Mp := (readTree bytes.length bytes).map Prod.fst

theorem readMany_writeItems {fuel : Nat} {items : List Mp} {rest : Bytes}
    (h : ∀ mp ∈ items, ∀ rest, readTree fuel (write mp ++ rest) = some (mp, rest)) :
    readMany (readTree fuel) items.length (writeItems items ++ rest) = some (items, rest) := by
  induction items with
  | nil => rfl
  | cons mp mps ih =>
      rw [List.length_cons, readMany, writeItems, List.append_assoc, h mp (by simp)]
      simp only [Option.bind_eq_bind, Option.bind_some]
      rw [ih fun mp' hmp' => h mp' (by simp [hmp'])]
      rfl

theorem readMany_writePairs {fuel : Nat} {pairs : List (Mp × Mp)} {rest : Bytes}
    (h : ∀ p ∈ pairs, ∀ rest, readTree fuel (write p.1 ++ rest) = some (p.1, rest) ∧
      readTree fuel (write p.2 ++ rest) = some (p.2, rest)) :
    readMany (readPair (readTree fuel)) pairs.length (writePairs pairs ++ rest) = some (pairs, rest) := by
  induction pairs with
  | nil => rfl
  | cons p ps ih =>
      rw [List.length_cons, readMany, writePairs, List.append_assoc, List.append_assoc, readPair,
        (h p (by simp) _).1]
      simp only [Option.bind_eq_bind, Option.bind_some]
      rw [(h p (by simp) _).2]
      simp only [Option.bind_some]
      rw [ih fun p' hp' => h p' (by simp [hp'])]
      rfl

theorem length_write_le_items {mp : Mp} {items : List Mp} (h : mp ∈ items) :
    (write mp).length ≤ (writeItems items).length := by
  induction items with
  | nil => cases h
  | cons mp' mps ih =>
      rw [writeItems, List.length_append]
      rcases List.mem_cons.mp h with rfl | h
      · omega
      · have := ih h
        omega

theorem length_write_le_pairs {p : Mp × Mp} {pairs : List (Mp × Mp)} (h : p ∈ pairs) :
    (write p.1).length ≤ (writePairs pairs).length ∧ (write p.2).length ≤ (writePairs pairs).length := by
  induction pairs with
  | nil => cases h
  | cons p' ps ih =>
      rw [writePairs, List.length_append, List.length_append]
      rcases List.mem_cons.mp h with rfl | h
      · omega
      · have := ih h
        omega

theorem readTree_writeHead (head : Head) (tail : Bytes) (hfits : head.fits) {fuel : Nat}
    (h : (writeHead head ++ tail).length ≤ fuel) :
    ∃ fuel', tail.length ≤ fuel' ∧ ∀ rest,
      readTree fuel ((writeHead head ++ tail) ++ rest) = readBody (readTree fuel') head (tail ++ rest) := by
  have hpos := length_writeHead_pos hfits
  rw [List.length_append] at h
  obtain ⟨fuel', rfl⟩ := Nat.exists_eq_succ_of_ne_zero (show fuel ≠ 0 by omega)
  refine ⟨fuel', by omega, fun rest => ?_⟩
  rw [List.append_assoc, readTree, readHead_writeHead hfits]
  rfl

theorem readTree_write (mp : Mp) {fuel : Nat} (h : (write mp).length ≤ fuel) (rest : Bytes) :
    readTree fuel (write mp ++ rest) = some (mp, rest) := by
  induction mp using Mp.induct generalizing fuel rest with
  | nil =>
      obtain ⟨fuel', -, hread⟩ := readTree_writeHead .null [] trivial
        (by simpa [write] using h)
      simpa [write, readBody] using hread rest
  | boolean b =>
      obtain ⟨fuel', -, hread⟩ := readTree_writeHead (.boolean b) [] trivial
        (by simpa [write] using h)
      simpa [write, readBody] using hread rest
  | integer i =>
      obtain ⟨fuel', -, hread⟩ := readTree_writeHead (.integer i) [] trivial
        (by simpa [write] using h)
      simpa [write, readBody] using hread rest
  | f32 f =>
      obtain ⟨fuel', -, hread⟩ := readTree_writeHead (.f32 (bits f)) [] (bits_lt f)
        (by simpa [write] using h)
      simpa [write, readBody, ofBits_bits] using hread rest
  | f64 f =>
      obtain ⟨fuel', -, hread⟩ := readTree_writeHead (.f64 (bits f)) [] (bits_lt f)
        (by simpa [write] using h)
      simpa [write, readBody, ofBits_bits] using hread rest
  | string s =>
      obtain ⟨fuel', -, hread⟩ := readTree_writeHead (.sized .text _) s.asBytes trivial h
      rw [write, hread rest, readBody, readBytes_append]
      simp
  | binary bytes =>
      obtain ⟨fuel', -, hread⟩ := readTree_writeHead (.sized .binary _) bytes trivial h
      rw [write, hread rest, readBody, readBytes_append]
      rfl
  | array items ih =>
      obtain ⟨fuel', hle, hread⟩ := readTree_writeHead (.sized .array _) (writeItems items)
        trivial h
      rw [write, hread rest, readBody, readMany_writeItems fun mp hmp rest =>
        ih mp hmp ((length_write_le_items hmp).trans hle) rest]
      rfl
  | map pairs ih =>
      obtain ⟨fuel', hle, hread⟩ := readTree_writeHead (.sized .map _) (writePairs pairs)
        trivial h
      rw [write, hread rest, readBody, readMany_writePairs fun p hp rest =>
        ⟨(ih p hp).1 ((length_write_le_pairs hp).1.trans hle) rest,
          (ih p hp).2 ((length_write_le_pairs hp).2.trans hle) rest⟩]
      rfl
  | ext kind bytes =>
      obtain ⟨fuel', -, hread⟩ := readTree_writeHead (.sized .ext _) (kind :: bytes) trivial h
      rw [write, hread rest, readBody, ← List.length_cons (a := kind), readBytes_append]
      rfl

theorem read_write (mp : Mp) : read (write mp) = some mp := by
  have h := readTree_write mp (le_refl _) []
  rw [List.append_nil] at h
  rw [read, h, Option.map_some]

theorem read_nil : read [] = none := rfl

end MessagePack

end TofuSdk
