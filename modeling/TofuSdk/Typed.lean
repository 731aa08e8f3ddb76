import TofuSdk.Value
import TofuSdk.Outcome

namespace TofuSdk

inductive TypedError
  | reflect (message : String)
  | nonStringKey
  | unsupported (identifier : String)
deriving DecidableEq, Repr

/-- A model field that keeps the known, unknown and null states apart. -/
inductive TfValue (α : Type)
  | known (a : α)
  | unknown
  | null
deriving DecidableEq, Repr

/-- The scalar types a model may use, each with its representation. -/
inductive ScalarType : Type → Type 1
  | bool : ScalarType Bool
  | str : ScalarType String
  | string : ScalarType String
  | cowStr : ScalarType String
  | f64 : ScalarType F64
  | f32 : ScalarType F32
  | i8 : ScalarType Int8
  | i16 : ScalarType Int16
  | i32 : ScalarType Int32
  | i64 : ScalarType Int64
  | i128 : ScalarType (BitVec 128)
  | isize : ScalarType Int64
  | u8 : ScalarType UInt8
  | u16 : ScalarType UInt16
  | u32 : ScalarType UInt32
  | u64 : ScalarType UInt64
  | u128 : ScalarType (BitVec 128)
  | usize : ScalarType UInt64
  | char : ScalarType Char
  | unit : ScalarType Unit

structure Collection (α γ : Type) where
  build : List α → Except String γ
  iter : γ → List α

structure SearchKey where
  exclusive : Bool := false
  shared : Bool := false
deriving DecidableEq, Repr

structure FieldAttrs where
  block : Bool := false
  identity : Bool := false
  optional : Bool := false
  computed : Bool := false
  forceNew : Bool := false
  sensitive : Bool := false
  writeOnly : Bool := false
  searchKey : Option SearchKey := none
  default : Option String := none
  deprecated : Option String := none
  doc : List String := []
deriving DecidableEq, Repr

structure Field where
  name : String
  rename : Option String := none
  attrs : FieldAttrs := {}
deriving DecidableEq, Repr

def Field.key (field : Field) : String := field.rename.getD field.name

mutual

/-- The reflected shape of a Rust type, as far as the codec looks at it. A
`proxy` type converts through the representation of another type; a
`formatProxy` has a proxy only for some other format. -/
inductive Shape : Type → Type 1
  | scalar {α : Type} (scalar : ScalarType α) : Shape α
  | option {α : Type} (some : Shape α) : Shape (Option α)
  | list {α γ : Type} (elem : Shape α) (collection : Collection α γ) : Shape γ
  | set {α γ : Type} (elem : Shape α) (collection : Collection α γ) : Shape γ
  | map {κ α γ : Type} (key : Shape κ) (val : Shape α) (collection : Collection (κ × α) γ) : Shape γ
  | struct {φ : Type} (fields : StructFields φ) : Shape φ
  | tfValue {α : Type} (known : Shape α) : Shape (TfValue α)
  | proxy {π α : Type} (proxied : Shape π) (convertIn : π → Except String α)
      (convertOut : α → Except String π) : Shape α
  | formatProxy {α : Type} (shape : Shape α) : Shape α
  | other {α : Type} (identifier : String) : Shape α

inductive StructFields : Type → Type 1
  | nil : StructFields Unit
  | cons {α φ : Type} (field : Field) (shape : Shape α) (rest : StructFields φ) : StructFields (α × φ)

end

def sequence : Value → List Value
  | .list items | .set items | .tuple items => items
  | _ => []

def mapping : Value → Option Fields
  | .map entries | .object entries => some entries
  | _ => none

def asString : Value → String
  | .string s => s
  | _ => ""

def asBool : Value → Bool
  | .bool b => b
  | _ => false

def asNumber : Value → Number
  | .number n => n
  | _ => .i64 0

def setScalar {α : Type} (scalar : ScalarType α) (value : Value) : Except TypedError α :=
  match scalar with
  | .string => .ok (asString value)
  | .bool => .ok (asBool value)
  | .f64 => .ok (asNumber value).toF64Lossy
  | .f32 => .ok (asNumber value).toF64Lossy.cast
  | .i64 => .ok (asNumber value).toI64Lossy
  | .i32 => .ok (asNumber value).toI64Lossy.toInt32
  | .i16 => .ok (asNumber value).toI64Lossy.toInt16
  | .i8 => .ok (asNumber value).toI64Lossy.toInt8
  | .isize => .ok (asNumber value).toI64Lossy
  | .u64 => .ok (asNumber value).toU64Lossy
  | .u32 => .ok (asNumber value).toU64Lossy.toUInt32
  | .u16 => .ok (asNumber value).toU64Lossy.toUInt16
  | .u8 => .ok (asNumber value).toU64Lossy.toUInt8
  | .usize => .ok (asNumber value).toU64Lossy
  | .str => .error (.unsupported "str")
  | .cowStr => .error (.unsupported "Cow")
  | .i128 => .error (.unsupported "i128")
  | .u128 => .error (.unsupported "u128")
  | .char => .error (.unsupported "char")
  -- a struct without fields to its shape
  | .unit => .ok ()

def wideIntToValue (n : Int) : Value :=
  if -2 ^ 63 ≤ n ∧ n < 2 ^ 63 then .number (.i64 (.ofInt n))
  else if 0 ≤ n ∧ n < 2 ^ 64 then .number (.u64 (.ofNat n.toNat))
  else .number (.f64 (.ofInt n))

def scalarToValue {α : Type} (scalar : ScalarType α) (a : α) : Except TypedError Value :=
  match scalar, a with
  | .bool, b => .ok (.bool b)
  | .str, s | .string, s | .cowStr, s => .ok (.string s)
  | .f64, f => .ok (.number (.f64 f))
  | .f32, f => .ok (.number (.f64 f.cast))
  | .i8, i => .ok (.number (.i64 i.toInt64))
  | .i16, i => .ok (.number (.i64 i.toInt64))
  | .i32, i => .ok (.number (.i64 i.toInt64))
  | .i64, i | .isize, i => .ok (.number (.i64 i))
  | .i128, i => .ok (wideIntToValue i.toInt)
  | .u8, u => .ok (.number (.i64 (.ofNat u.toNat)))
  | .u16, u => .ok (.number (.i64 (.ofNat u.toNat)))
  | .u32, u => .ok (.number (.i64 (.ofNat u.toNat)))
  | .u64, u | .usize, u => .ok (.number (.u64 u))
  | .u128, u => .ok (if u.toNat < 2 ^ 64 then .number (.u64 (.ofNat u.toNat)) else .number (.f64 (.ofInt u.toNat)))
  | .char, _ => .error (.unsupported "char")
  | .unit, _ => .error (.unsupported "unit")

namespace Shape

def asStr {κ : Type} (shape : Shape κ) (key : κ) : Option String :=
  match shape, key with
  | .scalar .str, s | .scalar .string, s | .scalar .cowStr, s => some s
  | _, _ => none

mutual

def fill {α : Type} (shape : Shape α) (value : Value) : Except TypedError α :=
  match shape with
  | .scalar ty => setScalar ty value
  | .option t =>
      match value with
      | .null | .unknown => .ok none
      | inner => some <$> fill t inner
  | .list elem collection | .set elem collection => do
      let items ← (sequence value).mapM (fill elem)
      (collection.build items).mapError .reflect
  | .map key val collection => do
      let entries ← ((mapping value).elim [] OrdMap.toList).mapM fun entry => do
        let k ← fill key (.string entry.1)
        let v ← fill val entry.2
        pure (k, v)
      (collection.build entries).mapError .reflect
  | .struct fields => fillStruct fields (mapping value)
  | .tfValue known =>
      match value with
      | .unknown => .ok .unknown
      | .null => .ok .null
      | inner => .known <$> fill known inner
  | .proxy proxied convertIn _ => do
      let p ← fill proxied value
      (convertIn p).mapError .reflect
  | .formatProxy shape => fill shape value
  | .other identifier => .error (.unsupported identifier)
termination_by structural shape

def fillStruct {φ : Type} (fields : StructFields φ) (object : Option Fields) : Except TypedError φ :=
  match fields with
  | .nil => .ok ()
  | .cons field shape rest => do
      let a ← fill shape (((object.bind (·.get? field.key))).getD .null)
      let as ← fillStruct rest object
      pure (a, as)
termination_by structural fields

end

mutual

def peekToValue {α : Type} (shape : Shape α) (a : α) : Except TypedError Value :=
  match shape, a with
  | .scalar ty, a => scalarToValue ty a
  | .option _, none => .ok .null
  | .option t, some a => peekToValue t a
  | .list elem collection, c => .list <$> (collection.iter c).mapM (peekToValue elem)
  | .set elem collection, c => .set <$> (collection.iter c).mapM (peekToValue elem)
  | .map key val collection, c => .map <$> (collection.iter c).foldlM (fun entries entry => do
      let k ← (key.asStr entry.1).elim (.error .nonStringKey) .ok
      let v ← peekToValue val entry.2
      pure (entries.insert k v)) OrdMap.empty
  | .struct fields, a => .object <$> peekFields fields a OrdMap.empty
  | .tfValue known, .known a => peekToValue known a
  | .tfValue _, .unknown => .ok .unknown
  | .tfValue _, .null => .ok .null
  | .proxy proxied _ convertOut, a => do
      let p ← (convertOut a).mapError .reflect
      peekToValue proxied p
  | .formatProxy shape, a => peekToValue shape a
  | .other identifier, _ => .error (.unsupported identifier)
termination_by structural shape

def peekFields {φ : Type} (fields : StructFields φ) (as : φ) (acc : Fields) : Except TypedError Fields :=
  match fields, as with
  | .nil, _ => .ok acc
  | .cons field shape rest, (a, as) => do
      let v ← peekToValue shape a
      peekFields rest as (acc.insert field.key v)
termination_by structural fields

end

end Shape

def canonicalizeTry {α : Type} (shape : Shape α) (value : Value) : Except TypedError Value := do
  let built ← shape.fill value
  shape.peekToValue built

def canonicalizeThroughShape {α : Type} (shape : Shape α) (value : Value) : Value :=
  match canonicalizeTry shape value with
  | .ok canonical => canonical
  | .error _ => value

section

variable {α : Type}

theorem canonicalizeThroughShape_option_unknown (shape : Shape α) :
    canonicalizeThroughShape shape.option .unknown = .null := by
  simp [canonicalizeThroughShape, canonicalizeTry, Shape.fill, Shape.peekToValue]

end

end TofuSdk
