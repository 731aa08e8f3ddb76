import TofuSdk.MessagePack

namespace TofuSdk

namespace Utf8

def isValid (bytes : Bytes) : Bool := bytes.toByteArray.validateUTF8

def encode (s : String) : Bytes := Utf8String.asBytes (.text s)

def following (lead : UInt8) : List (UInt8 × UInt8) :=
  if 0xC2 ≤ lead ∧ lead ≤ 0xDF then [(0x80, 0xBF)]
  else if lead = 0xE0 then [(0xA0, 0xBF), (0x80, 0xBF)]
  else if lead = 0xED then [(0x80, 0x9F), (0x80, 0xBF)]
  else if 0xE1 ≤ lead ∧ lead ≤ 0xEF then [(0x80, 0xBF), (0x80, 0xBF)]
  else if lead = 0xF0 then [(0x90, 0xBF), (0x80, 0xBF), (0x80, 0xBF)]
  else if 0xF1 ≤ lead ∧ lead ≤ 0xF3 then [(0x80, 0xBF), (0x80, 0xBF), (0x80, 0xBF)]
  else if lead = 0xF4 then [(0x80, 0x8F), (0x80, 0xBF), (0x80, 0xBF)]
  else []

def accepted : List (UInt8 × UInt8) → Bytes → Nat
  | (lo, hi) :: ranges, byte :: bytes => if lo ≤ byte ∧ byte ≤ hi then accepted ranges bytes + 1 else 0
  | _, _ => 0

/-- Where the bytes start with no character, the longest start of one becomes
the replacement character. -/
def decodeLossy : Nat → Bytes → List Char
  | 0, _ => []
  | _, [] => []
  | fuel + 1, lead :: rest =>
      match (lead :: rest).toByteArray.utf8DecodeChar? 0 with
      | some c => c :: decodeLossy fuel ((lead :: rest).drop c.utf8Size)
      | none => '\uFFFD' :: decodeLossy fuel (rest.drop (accepted (following lead) rest))

def fromUtf8Lossy (bytes : Bytes) : String := String.ofList (decodeLossy bytes.length bytes)

theorem encode_eq (s : String) : encode s = s.toList.flatMap String.utf8EncodeChar := by
  have hlist : s.toByteArray = (s.toList.flatMap String.utf8EncodeChar).toByteArray := by
    conv_lhs => rw [← String.ofList_toList (s := s)]
    rfl
  rw [encode, Utf8String.asBytes, String.toUTF8_eq_toByteArray, hlist]
  exact List.toList_data_toByteArray

theorem encode_append (s t : String) : encode (s ++ t) = encode s ++ encode t := by
  rw [encode_eq, encode_eq, encode_eq, String.toList_append, List.flatMap_append]

theorem ofBytes_encode (s : String) : Utf8String.ofBytes (encode s) = .text s := Utf8String.ofBytes_asBytes (.text s)

theorem toByteArray_encode (s : String) : (encode s).toByteArray = s.toByteArray := by
  apply ByteArray.ext
  rw [List.data_toByteArray, encode, Utf8String.asBytes, String.toUTF8_eq_toByteArray]

theorem isValid_iff {bytes : Bytes} : isValid bytes = true ↔ ∃ s, encode s = bytes := by
  constructor
  · intro h
    refine ⟨String.fromUTF8 bytes.toByteArray (ByteArray.validateUTF8_eq_true_iff.mp h), ?_⟩
    rw [encode, Utf8String.asBytes, String.toUTF8_eq_toByteArray]
    exact List.toList_data_toByteArray
  · rintro ⟨s, rfl⟩
    rw [isValid, toByteArray_encode]
    exact ByteArray.validateUTF8_eq_true_iff.mpr s.isValidUTF8

theorem decodeLossy_encode (cs : List Char) {fuel : Nat} (h : (cs.flatMap String.utf8EncodeChar).length ≤ fuel) :
    decodeLossy fuel (cs.flatMap String.utf8EncodeChar) = cs := by
  induction cs generalizing fuel with
  | nil => cases fuel <;> rfl
  | cons c cs ih =>
      have hdecode : ((c :: cs).flatMap String.utf8EncodeChar).toByteArray.utf8DecodeChar? 0 = some c :=
        List.utf8DecodeChar?_utf8Encode_cons
      have hdrop : ((c :: cs).flatMap String.utf8EncodeChar).drop c.utf8Size = cs.flatMap String.utf8EncodeChar := by
        rw [List.flatMap_cons, ← String.length_utf8EncodeChar, List.drop_left]
      have hlen : ((c :: cs).flatMap String.utf8EncodeChar).length =
          c.utf8Size + (cs.flatMap String.utf8EncodeChar).length := by
        rw [List.flatMap_cons, List.length_append, String.length_utf8EncodeChar]
      have hpos := c.utf8Size_pos
      -- The first character leaves the encoding of the others.
      cases hbytes : (c :: cs).flatMap String.utf8EncodeChar with
      | nil =>
          rw [hbytes, List.length_nil] at hlen
          omega
      | cons lead rest =>
          cases fuel with
          | zero => omega
          | succ fuel =>
              rw [hbytes] at hdecode hdrop
              rw [decodeLossy, hdecode]
              simp only
              rw [hdrop, ih (by omega)]

theorem fromUtf8Lossy_encode (s : String) : fromUtf8Lossy (encode s) = s := by
  rw [fromUtf8Lossy, encode_eq, decodeLossy_encode _ le_rfl, String.ofList_toList]

end Utf8

end TofuSdk
