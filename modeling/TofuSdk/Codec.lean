import TofuSdk.Ty
import TofuSdk.MessagePack

namespace TofuSdk

/-- The crates under the codec: `rmpv` between trees and MessagePack bytes,
`facet_json` between trees and JSON text, and the numbers of `facet_value`. -/
structure Crates where
  writeValue : Mp → Except String Bytes
  readValue : Bytes → Except String Mp
  toVec : Json → Bytes
  fromSlice : Bytes → Except String Json
  fromF64 : F64 → Json
  toI64 : VNumber → Option Int64
  toU64 : VNumber → Option UInt64
  toF64Lossy : VNumber → F64

/-- Reading inverts writing, and there is nothing to read in no bytes. -/
structure Crates.Lawful (crates : Crates) : Prop where
  write : ∀ mp, ∃ bytes, crates.writeValue mp = .ok bytes
  read : ∀ mp bytes, crates.writeValue mp = .ok bytes → crates.readValue bytes = .ok mp
  eof : ∀ mp, crates.readValue [] ≠ .ok mp

/-- A type constraint is read back from its text, and there is no document in
no bytes. -/
structure Crates.ReadsTypes (crates : Crates) : Prop where
  read : ∀ ty : Ty, crates.fromSlice (crates.toVec ty.toCtyJson) = .ok ty.toCtyJson
  eof : ∀ json, crates.fromSlice [] ≠ .ok json

inductive CodecError
  | decode (message : String)
  | encode (message : String)
  | typeMismatch (expected found : String)
  | dynamic (message : String)
deriving DecidableEq

def CodecError.toString : CodecError → String
  | .decode message => "msgpack decode error: " ++ message
  | .encode message => "msgpack encode error: " ++ message
  | .typeMismatch expected found =>
      "type mismatch: expected " ++ expected ++ ", found incompatible " ++ found ++ " value"
  | .dynamic message => "invalid dynamic value: " ++ message

namespace Integer

def ofI64 (i : Int64) : Integer :=
  ⟨i.toInt, by simpa using i.le_toInt, lt_trans i.toInt_lt (by norm_num)⟩

def ofU64 (u : UInt64) : Integer :=
  ⟨u.toNat, by omega, by exact_mod_cast u.toNat_lt⟩

def asI64 (i : Integer) : Option Int64 := if i.val < 2 ^ 63 then some (Int64.ofInt i.val) else none

def asU64 (i : Integer) : Option UInt64 := if 0 ≤ i.val then some (UInt64.ofNat i.val.toNat) else none

end Integer

def Utf8String.asStr : Utf8String → Option String
  | .text s => some s
  | .raw _ => none

namespace Mp

def asStr : Mp → Option String
  | .string s => s.asStr
  | _ => none

def kind : Mp → String
  | .nil => "nil"
  | .boolean _ => "bool"
  | .integer _ => "integer"
  | .f32 _ | .f64 _ => "float"
  | .string _ => "string"
  | .binary _ => "binary"
  | .array _ => "array"
  | .map _ => "map"
  | .ext _ _ => "ext"

end Mp

end TofuSdk
