import TofuSdk.Value

namespace TofuSdk

structure ObjectAttrOf (τ : Type) where
  name : String
  ty : τ
  optional : Bool
deriving DecidableEq

/-- The `cty` type language. -/
inductive Ty
  | bool
  | number
  | string
  | dynamic
  | list (elem : Ty)
  | set (elem : Ty)
  | map (elem : Ty)
  | object (attrs : List (ObjectAttrOf Ty))
  | tuple (elems : List Ty)

abbrev ObjectAttr := ObjectAttrOf Ty

structure VNumber where
  number : Number
deriving DecidableEq

/-- `facet_value::Value`; `other` stands for the kinds that no JSON text
produces. -/
inductive Json
  | null
  | bool (b : Bool)
  | number (n : VNumber)
  | string (s : String)
  | array (items : List Json)
  | object (fields : OrdMap String Json)
  | other
deriving Inhabited

@[elab_as_elim] theorem Json.induct {P : Json → Prop} (null : P .null) (bool : ∀ b, P (.bool b))
    (number : ∀ n, P (.number n)) (string : ∀ s, P (.string s))
    (array : ∀ items, (∀ json ∈ items, P json) → P (.array items))
    (object : ∀ fields, (∀ k json, fields.get? k = some json → P json) → P (.object fields))
    (other : P .other) (json : Json) : P json :=
  Json.rec (motive_1 := P) (motive_2 := fun items => ∀ json ∈ items, P json)
    (motive_3 := fun m => ∀ k json, m.get? k = some json → P json)
    null bool number string array object other
    (by simp) (fun j js hj hjs => List.forall_mem_cons.mpr ⟨hj, hjs⟩)
    (fun _ _ _ h => OrdMap.forall_val.mp h) json

def Json.asString : Json → Option String
  | .string s => some s
  | _ => none

namespace Ty

@[elab_as_elim] theorem induct {P : Ty → Prop} (bool : P .bool) (number : P .number)
    (string : P .string) (dynamic : P .dynamic) (list : ∀ elem, P elem → P (.list elem))
    (set : ∀ elem, P elem → P (.set elem)) (map : ∀ elem, P elem → P (.map elem))
    (object : ∀ attrs, (∀ attr ∈ attrs, P attr.ty) → P (.object attrs))
    (tuple : ∀ elems, (∀ t ∈ elems, P t) → P (.tuple elems)) (ty : Ty) : P ty :=
  Ty.rec (motive_1 := P) (motive_2 := fun attrs => ∀ attr ∈ attrs, P attr.ty)
    (motive_3 := fun elems => ∀ t ∈ elems, P t) (motive_4 := fun attr => P attr.ty)
    bool number string dynamic list set map object tuple
    (by simp) (fun a as ha has => by simpa using ⟨ha, has⟩)
    (by simp) (fun t ts ht hts => by simpa using ⟨ht, hts⟩) (fun _ _ _ h => h) ty

mutual

def toCtyJson (ty : Ty) : Json :=
  match ty with
  | .bool => .string "bool"
  | .number => .string "number"
  | .string => .string "string"
  | .dynamic => .string "dynamic"
  | .list elem => .array [.string "list", toCtyJson elem]
  | .set elem => .array [.string "set", toCtyJson elem]
  | .map elem => .array [.string "map", toCtyJson elem]
  | .tuple elems => .array [.string "tuple", .array (allToCtyJson elems)]
  | .object attrs =>
      let fields := Json.object (OrdMap.ofList (attrsToCtyJson attrs))
      let optionals := (attrs.filter (·.optional)).map fun attr => Json.string attr.name
      if optionals.isEmpty then .array [.string "object", fields]
      else .array [.string "object", fields, .array optionals]
termination_by structural ty

def allToCtyJson (elems : List Ty) : List Json :=
  match elems with
  | [] => []
  | t :: ts => toCtyJson t :: allToCtyJson ts
termination_by structural elems

def attrsToCtyJson (attrs : List ObjectAttr) : List (String × Json) :=
  match attrs with
  | [] => []
  | ⟨name, ty, _⟩ :: attrs => (name, toCtyJson ty) :: attrsToCtyJson attrs
termination_by structural attrs

end

mutual

def fromCtyJson (json : Json) : Except String Ty :=
  match json with
  | .string "bool" => .ok .bool
  | .string "number" => .ok .number
  | .string "string" => .ok .string
  | .string "dynamic" => .ok .dynamic
  | .string other => .error ("unknown primitive cty type " ++ other.quote)
  | .array (.string kind :: args) =>
      match kind with
      | "list" => Ty.list <$> firstType args
      | "set" => Ty.set <$> firstType args
      | "map" => Ty.map <$> firstType args
      | "tuple" =>
          match args with
          | .array elems :: _ => Ty.tuple <$> allFromCtyJson elems
          | _ => .error "tuple type needs an element-type array"
      | "object" =>
          match args with
          | .object fields :: rest =>
              let optionals := match rest with
                | .array names :: _ => names.filterMap Json.asString
                | _ => []
              (fun types => Ty.object (types.map fun p => ⟨p.1, p.2, optionals.contains p.1⟩)) <$>
                (fieldsFromCtyJson fields).toList.mapM fun p => (p.1, ·) <$> p.2
          | _ => .error "object type needs an attribute map"
      | other => .error ("unknown cty collection kind " ++ other.quote)
  | .array _ => .error "cty type array must start with a kind string"
  | _ => .error "invalid cty type constraint"
termination_by structural json

def firstType (args : List Json) : Except String Ty :=
  match args with
  | [] => .error "collection type missing element type"
  | elem :: _ => fromCtyJson elem
termination_by structural args

def allFromCtyJson (elems : List Json) : Except String (List Ty) :=
  match elems with
  | [] => .ok []
  | elem :: rest => do
      let t ← fromCtyJson elem
      let ts ← allFromCtyJson rest
      pure (t :: ts)
termination_by structural elems

def fieldsFromCtyJson (fields : OrdMap String Json) : OrdMap String (Except String Ty) :=
  match fields with
  | ⟨keys, sorted, val⟩ => ⟨keys, sorted, fun i => fromCtyJson (val i)⟩
termination_by structural fields

end

end Ty

namespace Value

mutual

def inferType (v : Value) : Ty :=
  match v with
  | .null | .unknown => .dynamic
  | .bool _ => .bool
  | .number _ => .number
  | .string _ => .string
  | .list items => .list (inferFirst items)
  | .set items => .set (inferFirst items)
  | .map entries => .map ((inferFields entries).toList.head?.elim .dynamic Prod.snd)
  | .tuple items => .tuple (inferAll items)
  | .object attrs => .object ((inferFields attrs).toList.map fun p => ⟨p.1, p.2, false⟩)
termination_by structural v

def inferFirst (items : List Value) : Ty :=
  match items with
  | [] => .dynamic
  | v :: _ => inferType v
termination_by structural items

def inferAll (items : List Value) : List Ty :=
  match items with
  | [] => []
  | v :: vs => inferType v :: inferAll vs
termination_by structural items

def inferFields (fields : Fields) : OrdMap String Ty :=
  match fields with
  | ⟨keys, sorted, val⟩ => ⟨keys, sorted, fun i => inferType (val i)⟩
termination_by structural fields

end

end Value

end TofuSdk
