import TofuSdk.Codec
import TofuSdk.JsonText

namespace TofuSdk

namespace Json

def spellFloat (q : ℚ) : List Char :=
  let places := Nat.log2 q.den
  let scaled := q.num.natAbs * 5 ^ places
  let fraction := (toString (scaled % 10 ^ places)).toList
  (if q < 0 then ['-'] else []) ++ (toString (scaled / 10 ^ places)).toList ++
    '.' :: (List.replicate (places - fraction.length) '0' ++ fraction)

def spell (n : VNumber) : List Char :=
  match n.number with
  | .i64 i => (toString i.toInt).toList
  | .u64 u => (toString u.toNat).toList
  | .f64 f => spellFloat f.value

def readNumber (lexeme : List Char) : Option VNumber :=
  let number : Option Number :=
    if lexeme.any fun c => c = '.' || c = 'e' || c = 'E' then (Number.parseF64 lexeme).map .f64
    else ((Number.parseI64 lexeme).map .i64).or
      (((Number.parseU64 lexeme).map .u64).or ((Number.parseF64 lexeme).map .f64))
  number.bind fun n => if n.isFinite then some ⟨n⟩ else none

mutual

def toTree (json : Json) : JsonText.Tree :=
  match json with
  | .null => .null
  | .bool b => .bool b
  | .number n => if n.number.isFinite then .number (spell n) else .null
  | .string s => .string s.toList
  | .array items => .array (toTrees items)
  | .object fields => .object (toMembers fields)
  | .other => .null
termination_by structural json

def toTrees (items : List Json) : List JsonText.Tree :=
  match items with
  | [] => []
  | json :: jsons => toTree json :: toTrees jsons
termination_by structural items

def toMembers (fields : OrdMap String Json) : List (List Char × JsonText.Tree) :=
  match fields with
  | ⟨keys, _, val⟩ => (List.finRange keys.length).map fun i => ((keys.get i).toList, toTree (val i))
termination_by structural fields

end

mutual

def ofTree (tree : JsonText.Tree) : Option Json :=
  match tree with
  | .null => some .null
  | .bool b => some (.bool b)
  | .number lexeme => (readNumber lexeme).map .number
  | .string s => some (.string (String.ofList s))
  | .array items => (ofTrees items).map .array
  | .object members => (ofMembers members).map fun fields => .object (OrdMap.ofList fields)
termination_by structural tree

def ofTrees (items : List JsonText.Tree) : Option (List Json) :=
  match items with
  | [] => some []
  | t :: ts => do
      let json ← ofTree t
      let jsons ← ofTrees ts
      some (json :: jsons)
termination_by structural items

def ofMembers (members : List (List Char × JsonText.Tree)) : Option (List (String × Json)) :=
  match members with
  | [] => some []
  | (key, t) :: ms => do
      let json ← ofTree t
      let fields ← ofMembers ms
      some ((String.ofList key, json) :: fields)
termination_by structural members

end

mutual

def plain (json : Json) : Bool :=
  match json with
  | .number _ | .other => false
  | .array items => plainItems items
  | .object fields => plainFields fields
  | _ => true
termination_by structural json

def plainItems (items : List Json) : Bool :=
  match items with
  | [] => true
  | json :: jsons => plain json && plainItems jsons
termination_by structural items

def plainFields (fields : OrdMap String Json) : Bool :=
  match fields with
  | ⟨keys, _, val⟩ => (List.finRange keys.length).all fun i => plain (val i)
termination_by structural fields

end

theorem plainItems_iff {items : List Json} : plainItems items = true ↔ ∀ json ∈ items, json.plain = true := by
  induction items with
  | nil => simp [plainItems]
  | cons json jsons ih => simp [plainItems, ih]

theorem plainFields_iff {fields : OrdMap String Json} :
    plainFields fields = true ↔ ∀ k json, fields.get? k = some json → json.plain = true := by
  rw [← OrdMap.forall_val (P := fun _ (json : Json) => json.plain = true)]
  obtain ⟨keys, sorted, val⟩ := fields
  simp [plainFields]

theorem toTrees_eq (items : List Json) : toTrees items = items.map toTree := by
  induction items with
  | nil => rfl
  | cons json jsons ih => rw [toTrees, ih, List.map_cons]

theorem toMembers_eq (fields : OrdMap String Json) :
    toMembers fields = fields.toList.map fun p => (p.1.toList, toTree p.2) := by
  obtain ⟨keys, sorted, val⟩ := fields
  rw [toMembers, OrdMap.toList, List.ofFn_eq_map, List.map_map]
  rfl

theorem ofTrees_map {items : List Json} (h : ∀ json ∈ items, ofTree (toTree json) = some json) :
    ofTrees (items.map toTree) = some items := by
  induction items with
  | nil => rfl
  | cons json jsons ih =>
      rw [List.map_cons, ofTrees, h json List.mem_cons_self, ih fun j hj => h j (List.mem_cons_of_mem _ hj)]
      rfl

theorem ofMembers_map {fields : List (String × Json)} (h : ∀ p ∈ fields, ofTree (toTree p.2) = some p.2) :
    ofMembers (fields.map fun p => (p.1.toList, toTree p.2)) = some fields := by
  induction fields with
  | nil => rfl
  | cons p ps ih =>
      rw [List.map_cons, ofMembers, h p List.mem_cons_self, ih fun q hq => h q (List.mem_cons_of_mem _ hq)]
      simp

theorem isNumber_spellFloat (q : ℚ) : JsonText.isNumber (spellFloat q) = true := by
  have hfraction : ∀ k n : Nat, ∀ c ∈ List.replicate k '0' ++ Nat.toDigits 10 n, c.isDigit = true := by
    intro k n c hc
    rcases List.mem_append.mp hc with hc | hc
    · rw [List.eq_of_mem_replicate hc]
      rfl
    · exact JsonText.isDigit_toDigits n c hc
  have hdecimal := fun n k m => JsonText.isNumber_decimal (JsonText.isWhole_toDigits n) (JsonText.isDigit_toDigits n)
    (.inr ⟨_, List.append_ne_nil_of_right_ne_nil _ Nat.toDigits_ne_nil, hfraction k m, rfl⟩)
  rw [spellFloat]
  simp only [Nat.toString_eq_repr, Nat.toList_repr]
  split_ifs
  · exact (hdecimal _ _ _).2
  · exact (hdecimal _ _ _).1

theorem ofTree_toTree {json : Json} (h : json.plain = true) : ofTree (toTree json) = some json := by
  induction json using Json.induct with
  | null | bool b => rfl
  | number n => cases h
  | string s => simp [toTree, ofTree]
  | array items ih =>
      have hitems := plainItems_iff.mp h
      rw [toTree, ofTree, toTrees_eq, ofTrees_map fun json hj => ih json hj (hitems json hj)]
      rfl
  | object fields ih =>
      have hfields := plainFields_iff.mp h
      rw [toTree, ofTree, toMembers_eq, ofMembers_map]
      · rw [Option.map_some, OrdMap.ofList_toList]
      · intro p hp
        have hget := OrdMap.mem_toList.mp hp
        exact ih p.1 p.2 hget (hfields p.1 p.2 hget)
  | other => cases h

theorem wellSpelled_toTree {json : Json} (h : json.plain = true) : JsonText.wellSpelled (toTree json) = true := by
  induction json using Json.induct with
  | null | bool b | string s => rfl
  | number n => cases h
  | array items ih =>
      have hitems := plainItems_iff.mp h
      rw [toTree, JsonText.wellSpelled, toTrees_eq, JsonText.wellSpelledItems_iff]
      intro t ht
      obtain ⟨json, hj, rfl⟩ := List.mem_map.mp ht
      exact ih json hj (hitems json hj)
  | object fields ih =>
      have hfields := plainFields_iff.mp h
      rw [toTree, JsonText.wellSpelled, toMembers_eq, JsonText.wellSpelledMembers_iff]
      intro m hm
      obtain ⟨p, hp, rfl⟩ := List.mem_map.mp hm
      have hget := OrdMap.mem_toList.mp hp
      exact ih p.1 p.2 hget (hfields p.1 p.2 hget)
  | other => cases h

end Json

theorem Ty.plain_toCtyJson (ty : Ty) : ty.toCtyJson.plain = true := by
  induction ty using Ty.induct with
  | bool | number | string | dynamic => rfl
  | list elem ih | set elem ih | map elem ih => simp [toCtyJson, Json.plain, Json.plainItems, ih]
  | object attrs ih =>
      have hfields : Json.plainFields (OrdMap.ofList (attrsToCtyJson attrs)) = true := by
        rw [Json.plainFields_iff]
        intro k json hk
        have hmem : (k, json) ∈ attrsToCtyJson attrs := OrdMap.mem_of_get?_ofList hk
        clear hk
        induction attrs with
        | nil => cases hmem
        | cons attr attrs iha =>
            rcases List.mem_cons.mp hmem with heq | hmem
            · obtain ⟨-, rfl⟩ := Prod.mk.inj heq
              exact ih attr List.mem_cons_self
            · exact iha (fun a ha => ih a (List.mem_cons_of_mem _ ha)) hmem
      have hnames : Json.plainItems ((attrs.filter (·.optional)).map fun attr => Json.string attr.name) = true := by
        rw [Json.plainItems_iff]
        intro json hj
        obtain ⟨attr, -, rfl⟩ := List.mem_map.mp hj
        rfl
      rw [toCtyJson]
      split_ifs <;> simp [Json.plain, Json.plainItems, hfields, hnames]
  | tuple elems ih =>
      have helems : Json.plainItems (allToCtyJson elems) = true := by
        induction elems with
        | nil => rfl
        | cons t ts iht =>
            rw [allToCtyJson, Json.plainItems, ih t List.mem_cons_self,
              iht fun t ht => ih t (List.mem_cons_of_mem _ ht)]
            rfl
      simp [toCtyJson, Json.plain, Json.plainItems, helems]

/-- The crates on the bytes they are for: MessagePack, and JSON as UTF-8. -/
def Crates.real : Crates where
  writeValue mp := .ok (MessagePack.write mp)
  readValue bytes := match MessagePack.read bytes with
    | some mp => .ok mp
    | none => .error "failed to fill whole buffer"
  toVec json := Utf8String.asBytes (.text (String.ofList (JsonText.print json.toTree)))
  fromSlice bytes := match Utf8String.ofBytes bytes with
    | .text s => match (JsonText.parse s.toList).bind Json.ofTree with
        | some json => .ok json
        | none => .error "invalid JSON"
    | .raw _ => .error "invalid UTF-8"
  fromF64 x := .number ⟨.f64 x⟩
  toI64 n := match n.number with
    | .i64 i => some i
    | .u64 u => if u.toNat < 2 ^ 63 then some u.toInt64 else none
    | .f64 f =>
        if f.isIntegral && (BinaryFloat.ofInt (-2 ^ 63)).le f && f.le (BinaryFloat.ofInt (2 ^ 63 - 1)) then
          some (Number.f64 f).toI64Lossy
        else none
  toU64 n := match n.number with
    | .i64 i => if 0 ≤ i.toInt then some i.toUInt64 else none
    | .u64 u => some u
    | .f64 f =>
        if f.isIntegral && (BinaryFloat.ofInt 0).le f && f.le (BinaryFloat.ofInt (2 ^ 64 - 1)) then
          some (Number.f64 f).toU64Lossy
        else none
  toF64Lossy n := n.number.toF64Lossy

namespace Crates

theorem real_lawful : real.Lawful where
  write mp := ⟨MessagePack.write mp, rfl⟩
  read mp bytes h := by
    obtain rfl := Except.ok.inj h
    simp only [real, MessagePack.read_write]
  eof mp h := by
    simp only [real, MessagePack.read_nil] at h
    cases h

theorem real_fromSlice_toVec {json : Json} (h : json.plain = true) : real.fromSlice (real.toVec json) = .ok json := by
  have htree := Json.ofTree_toTree h
  simp only [real, Utf8String.ofBytes_asBytes, String.toList_ofList, JsonText.parse_print (Json.wellSpelled_toTree h),
    Option.bind_some, htree]

theorem real_readsTypes : real.ReadsTypes where
  read ty := real_fromSlice_toVec ty.plain_toCtyJson
  eof json h := by
    have hempty : Utf8String.ofBytes [] = .text "" := Utf8String.ofBytes_asBytes (.text "")
    simp only [real, hempty] at h
    cases h

end Crates

end TofuSdk
