import TofuSdk.Ty
import TofuSdk.Entries

namespace TofuSdk

/-- A primitive value of JavaScript. -/
inductive Primitive
  | undefined
  | null
  | bool (b : Bool)
  | number (x : F64)
  | bigint (n : Int)
  | string (s : String)
deriving DecidableEq

/-- A value of JavaScript with its own properties; a date is its ISO text,
if it is valid. -/
inductive Js
  | primitive (p : Primitive)
  | date (iso : Option String)
  | array (items : List Js)
  | object (fields : Entries Js)
  | set (items : List Js)

/-- The Terraform dispositions of a schema node; a key that is not there is not set. -/
structure TfMeta where
  computed : Option Bool := none
  forceNew : Option Bool := none
  sensitive : Option Bool := none
  writeOnly : Option Bool := none
  deprecated : Option Bool := none
  identity : Option Bool := none
  block : Option Bool := none
  set : Option Bool := none
deriving DecidableEq

def TfMeta.spread (m merged : TfMeta) : TfMeta where
  computed := merged.computed.or m.computed
  forceNew := merged.forceNew.or m.forceNew
  sensitive := merged.sensitive.or m.sensitive
  writeOnly := merged.writeOnly.or m.writeOnly
  deprecated := merged.deprecated.or m.deprecated
  identity := merged.identity.or m.identity
  block := merged.block.or m.block
  set := merged.set.or m.set

/-- The wrappers stacked around a field. -/
inductive Wrapper
  | optional | default | prefault | nullable | readonly | catch | nonoptional
deriving DecidableEq

/-- A Zod type without parts. A type of another kind is known by that kind and
by the values its inferred type admits. -/
inductive LeafType
  | string
  | enum (values : List Primitive)
  | date
  | literal (values : List Primitive)
  | number
  | int
  | bigint
  | boolean
  | any
  | unknown
  | transform
  | codec
  | unsupported (type : String) (admits : Js → Bool)

/-- A Zod type as its definition exposes it, each node with its own metadata.
A pipe is marked when it is a codec, which transforms. -/
inductive Zod
  | leaf (tfMeta : TfMeta) (type : LeafType)
  | array (tfMeta : TfMeta) (element : Zod)
  | set (tfMeta : TfMeta) (valueType : Zod)
  | record (tfMeta : TfMeta) (keyType valueType : Zod)
  | object (tfMeta : TfMeta) (shape : Entries Zod)
  | pipe (tfMeta : TfMeta) (codec : Bool) (input output : Zod)
  | wrapper (tfMeta : TfMeta) (type : Wrapper) (innerType : Zod)

abbrev ZodShape := Entries Zod

@[elab_as_elim] theorem Zod.induct {P : Zod → Prop} (leaf : ∀ m type, P (.leaf m type))
    (array : ∀ m element, P element → P (.array m element)) (set : ∀ m valueType, P valueType → P (.set m valueType))
    (record : ∀ m keyType valueType, P keyType → P valueType → P (.record m keyType valueType))
    (object : ∀ m (shape : Entries Zod), (∀ p ∈ shape.toList, P p.2) → P (.object m shape))
    (pipe : ∀ m codec input output, P input → P output → P (.pipe m codec input output))
    (wrapper : ∀ m type innerType, P innerType → P (.wrapper m type innerType)) (t : Zod) : P t :=
  Zod.rec (motive_1 := P) (motive_2 := fun shape => ∀ p ∈ shape.toList, P p.2)
    leaf array set record object pipe wrapper (fun _ _ _ h => Entries.forall_val.mp h) t

/-- The core of a type without its wrappers, whether they make it optional, and
the metadata merged across them. -/
structure Peeled where
  core : Zod
  optional : Bool
  tfMeta : TfMeta

def Wrapper.step (isOptional : Bool) : Wrapper → Bool
  | .optional | .default | .prefault => true
  | .nonoptional => false
  | .nullable | .readonly | .catch => isOptional

namespace Zod

def ownMeta : Zod → TfMeta
  | leaf m _ | array m _ | set m _ | record m _ _ | object m _ | pipe m _ _ _ | wrapper m _ _ => m

def peelFrom (optional : Bool) (tfMeta : TfMeta) (t : Zod) : Peeled :=
  match t with
  | .wrapper m type innerType => peelFrom (type.step optional) (m.spread tfMeta) innerType
  | t => ⟨t, optional, t.ownMeta.spread tfMeta⟩
termination_by structural t

def peel (t : Zod) : Peeled := peelFrom false {} t

end Zod

theorem TfMeta.spread_assoc (m m' m'' : TfMeta) : (m.spread m').spread m'' = m.spread (m'.spread m'') := by
  simp only [spread, Option.or_assoc]

namespace Zod

variable {m : TfMeta} {type : Wrapper} {t : Zod}

theorem peelFrom_core (optional : Bool) (tfMeta : TfMeta) (t : Zod) :
    (peelFrom optional tfMeta t).core = t.peel.core := by
  rw [peel]
  generalize hfalse : false = optional'
  generalize hempty : ({} : TfMeta) = tfMeta'
  clear hfalse hempty
  induction t using Zod.induct generalizing optional tfMeta optional' tfMeta' with
  | wrapper m type innerType ih => exact ih _ _ _ _
  | _ => rfl

theorem peelFrom_tfMeta (optional : Bool) (tfMeta : TfMeta) (t : Zod) :
    (peelFrom optional tfMeta t).tfMeta = t.peel.tfMeta.spread tfMeta := by
  induction t using Zod.induct generalizing optional tfMeta with
  | wrapper m type innerType ih =>
      rw [peel, peelFrom, peelFrom, ih, ih, TfMeta.spread_assoc]
      rfl
  | _ => rfl

@[simp] theorem peel_core_wrapper : (wrapper m type t).peel.core = t.peel.core := peelFrom_core _ _ t

@[simp] theorem peel_tfMeta_wrapper : (wrapper m type t).peel.tfMeta = t.peel.tfMeta.spread m := by
  rw [peel, peelFrom, peelFrom_tfMeta]
  rfl

theorem peel_set_core (t : Zod) : t.peel.tfMeta.set.or t.peel.core.ownMeta.set = t.peel.tfMeta.set := by
  induction t using Zod.induct with
  | wrapper m type innerType ih =>
      rw [peel_core_wrapper, peel_tfMeta_wrapper, TfMeta.spread, Option.or_assoc, ih]
  | _ => simp [peel, peelFrom, TfMeta.spread, ownMeta]

end Zod

def LeafType.isScalar : LeafType → Bool
  | .string | .number | .int | .bigint | .boolean | .enum _ | .literal _ | .date => true
  | _ => false

def isScalar (t : Zod) : Bool :=
  match t.peel.core with
  | .leaf _ type => type.isScalar
  | _ => false

def literalCty : List Primitive → Json
  | .number _ :: _ => .string "number"
  | .bool _ :: _ => .string "bool"
  | _ => .string "string"

def bareTail (type : String) : String :=
  "a bare " ++ type ++ " has no input type to derive a cty from; use it as the tail of a pipe " ++
    "(e.g. z.string().transform(...))"

def LeafType.cty : LeafType → Except String Json
  | .string | .enum _ | .date => .ok (.string "string")
  | .literal values => .ok (literalCty values)
  | .number | .int | .bigint => .ok (.string "number")
  | .boolean => .ok (.string "bool")
  | .any | .unknown => .ok (.string "dynamic")
  | .transform => .error (bareTail "transform")
  | .codec => .error (bareTail "codec")
  | .unsupported type _ => .error ("unsupported Zod type for cty: " ++ type)

/-- Assigning to this key of an object makes no property of it. -/
def protoKey : String := "__proto__"

def objectCty (shape : ZodShape) (types : List (String × Json)) : Json :=
  let fields := Json.object (OrdMap.ofList (types.filter (·.1 ≠ protoKey)))
  let optional := (shape.toList.filter (·.2.peel.optional)).map fun p => Json.string p.1
  if optional.isEmpty then .array [.string "object", fields]
  else .array [.string "object", fields, .array optional]

mutual

def ctyFromZod (t : Zod) : Except String Json :=
  match t with
  | .leaf _ type => type.cty
  | .array _ element => (fun elem => Json.array [.string "list", elem]) <$> ctyFromZod element
  | .set _ valueType =>
      if isScalar valueType then (fun elem => Json.array [.string "set", elem]) <$> ctyFromZod valueType
      else .error ("z.set(...) of objects/collections is not supported (a JS Set can't dedup them by value); " ++
        "use z.array(...).meta(\x7b set: true \x7d) to derive a cty set")
  | .record _ _ valueType => (fun elem => Json.array [.string "map", elem]) <$> ctyFromZod valueType
  | .object _ shape => objectCty shape <$> (shapeCty shape).toList.mapM fun p => (p.1, ·) <$> p.2
  | .pipe _ _ input _ => ctyFromZod input
  | .wrapper _ _ innerType => ctyFromZod innerType
termination_by structural t

def shapeCty (shape : ZodShape) : Entries (Except String Json) :=
  match shape with
  | ⟨keys, nodup, val⟩ => ⟨keys, nodup, fun i => ctyFromZod (val i)⟩
termination_by structural shape

end

theorem shapeCty_eq (shape : ZodShape) : shapeCty shape = shape.map ctyFromZod := by
  cases shape
  rfl

theorem ctyFromZod_object (m : TfMeta) (shape : ZodShape) : ctyFromZod (.object m shape) =
    objectCty shape <$> shape.toList.mapM fun p => (p.1, ·) <$> ctyFromZod p.2 := by
  rw [ctyFromZod, shapeCty_eq, Entries.toList_map, List.mapM_map]
  rfl

def asSet : Json → Json
  | .array (.string "list" :: elem :: _) => .array [.string "set", elem]
  | json => json

end TofuSdk
