import TofuSdk.Paths
import TofuSdk.Service
import TofuSdk.Traverse
import TofuSdk.Wire

namespace TofuSdk

open ValueOf

def NestingMode.Enters : NestingMode → Path → Prop
  | .single, [] => True
  | .list, [.index _] | .set, [.index _] => True
  | .map, [.key _] => True
  | _, _ => False

def NestingMode.container : NestingMode → Option String
  | .single => none
  | .list => some "list"
  | .set => some "set"
  | .map => some "map"

section

variable {nesting : NestingMode} {v elem : Value} {s : Path}

theorem elementAt_of_enters (h : nesting.Enters s) :
    elementAt nesting v s = if ∀ kind ∈ nesting.container, v.kind = kind then getAtPath v s else none := by
  rw [getAtPath_eq]
  cases nesting with
  | single =>
      cases s with
      | nil => rfl
      | cons _ _ => exact h.elim
  | list | set =>
      rcases s with _ | ⟨_ | i | _, _ | _⟩ <;> try exact h.elim
      cases v <;> first | rfl | exact (Option.bind_fun_some _).symm
  | map =>
      rcases s with _ | ⟨_ | _ | k, _ | _⟩ <;> try exact h.elim
      cases v <;> first | rfl | exact (Option.bind_fun_some _).symm

theorem enters_of_elementAt (h : elementAt nesting v s = some elem) : nesting.Enters s := by
  unfold elementAt at h
  split at h <;> trivial

theorem elementAt_eq_some : elementAt nesting v s = some elem ↔
    nesting.Enters s ∧ (∀ kind ∈ nesting.container, v.kind = kind) ∧ getAtPath v s = some elem := by
  constructor
  · intro h
    have henters := enters_of_elementAt h
    rw [elementAt_of_enters henters] at h
    split_ifs at h with hkind
    exact ⟨henters, hkind, h⟩
  · rintro ⟨henters, hkind, h⟩
    rw [elementAt_of_enters henters, if_pos hkind, h]

theorem getAtPath_append (v : Value) (k r : Path) : getAtPath v (k ++ r) = (getAtPath v k).bind (getAtPath · r) := by
  simp only [getAtPath_eq, TreePath.get_append]

end

/-- The paths of a block's write-only attributes, through nested blocks. -/
inductive WriteOnlyPath : Block → Path → Prop
  | here (block : Block) (attr : AttributeSchema) :
      attr ∈ block.attributes → attr.writeOnly = true → WriteOnlyPath block [.attribute attr.name]
  | nested (block : Block) (nested : NestedBlock) (s p : Path) :
      nested ∈ block.nestedBlocks → nested.nesting.Enters s → WriteOnlyPath nested.block p →
      WriteOnlyPath block (.attribute nested.name :: (s ++ p))

/-- A value without write-only values. -/
def Redacted (block : Block) (v : Value) : Prop := ∀ p, WriteOnlyPath block p → Blank v p

theorem blank_nil {v : Value} : Blank v [] ↔ v = .null := by
  simp [Blank, getAtPath_eq, TreePath.get]

theorem blank_cons {v : Value} {s : PathStep} {p : Path} :
    Blank v (s :: p) ↔ ∀ c, PathStep.child v s = some c → Blank c p := by
  simp only [Blank, getAtPath_eq, TreePath.get, Option.bind_eq_some_iff]
  constructor
  · exact fun h c hc x hx => h x ⟨c, hc, hx⟩
  · rintro h x ⟨c, hc, hx⟩
    exact h c hc x hx

theorem blank_object {fields : Fields} {name : String} {p : Path} :
    Blank (.object fields) (.attribute name :: p) ↔ ∀ c, fields.get? name = some c → Blank c p := blank_cons

theorem blank_attribute {v : Value} (h : ∀ fields, v ≠ .object fields) (name : String) (p : Path) :
    Blank v (.attribute name :: p) := by
  rw [blank_cons]
  intro c hc
  cases v with
  | object fields => exact absurd rfl (h fields)
  | _ => cases hc

theorem redacted_of_not_object {block : Block} {v : Value} (h : ∀ fields, v ≠ .object fields) :
    Redacted block v := by
  intro p hp
  cases hp <;> exact blank_attribute h _ _

def Dims (v w : Value) : Prop := ∀ p, Blank v p → Blank w p

theorem dims_rfl {v : Value} : Dims v v := fun _ h => h

theorem blank_null (p : Path) : Blank .null p := by
  cases p with
  | nil => exact blank_nil.mpr rfl
  | cons s p =>
      rw [blank_cons]
      intro c hc
      cases s <;> cases hc

theorem dims_null {v : Value} : Dims v .null := fun p _ => blank_null p

theorem dims_of_child {v w : Value} (hnull : v = .null → w = .null)
    (h : ∀ s d, PathStep.child w s = some d → ∃ c, PathStep.child v s = some c ∧ Dims c d) : Dims v w := by
  intro p hp
  cases p with
  | nil => exact blank_nil.mpr (hnull (blank_nil.mp hp))
  | cons s p =>
      rw [blank_cons] at hp ⊢
      intro d hd
      obtain ⟨c, hc, hdims⟩ := h s d hd
      exact hdims p (hp c hc)

theorem dims_modify {fields : Fields} {name : String} {f : Value → Value} (hf : ∀ c, Dims c (f c)) :
    Dims (.object fields) (.object (fields.modify name f)) := by
  refine dims_of_child (fun h => by cases h) ?_
  intro s d hd
  rcases s with name' | i | k
  · have hd : (fields.modify name f).get? name' = some d := hd
    rw [OrdMap.get?_modify] at hd
    split_ifs at hd with hname
    · obtain ⟨c, hc, rfl⟩ := Option.map_eq_some_iff.mp hd
      exact ⟨c, hc, hf c⟩
    · exact ⟨d, hd, dims_rfl⟩
  · cases hd
  · cases hd

theorem child_items_map {items : List Value} {op : Value → Value} {i : Int} {d : Value}
    (h : (if 0 ≤ i then (items.map op)[i.toNat]? else none) = some d) :
    ∃ c, (if 0 ≤ i then items[i.toNat]? else none) = some c ∧ d = op c := by
  split_ifs at h with hi
  · rw [List.getElem?_map] at h
    obtain ⟨c, hc, rfl⟩ := Option.map_eq_some_iff.mp h
    exact ⟨c, by rw [if_pos hi, hc], rfl⟩

theorem child_walkBlock {nesting : NestingMode} (hn : nesting ≠ .single) {op : Value → Value} {v d : Value}
    {s : PathStep} (h : PathStep.child (WriteOnly.walkBlock nesting op v) s = some d) :
    PathStep.child v s = some d ∨ ∃ c, PathStep.child v s = some c ∧ d = op c := by
  cases nesting with
  | single => exact absurd rfl hn
  | list | set =>
      cases v with
      | list items | set items =>
          rcases s with _ | i | _
          · cases h
          · exact .inr (child_items_map h)
          · cases h
      | _ => exact .inl h
  | map =>
      cases v with
      | map entries =>
          rcases s with _ | _ | k
          · cases h
          · cases h
          · have h : (entries.map op).get? k = some d := h
            rw [OrdMap.get?_map] at h
            obtain ⟨c, hc, rfl⟩ := Option.map_eq_some_iff.mp h
            exact .inr ⟨c, hc, rfl⟩
      | _ => exact .inl h

theorem dims_walkBlock {nesting : NestingMode} {op : Value → Value} (hop : ∀ c, Dims c (op c)) (v : Value) :
    Dims v (WriteOnly.walkBlock nesting op v) := by
  by_cases hn : nesting = .single
  · subst hn
    exact hop v
  · refine dims_of_child ?_ ?_
    · rintro rfl
      cases nesting with
      | single => exact absurd rfl hn
      | _ => rfl
    · intro s d hd
      obtain h | ⟨c, hc, rfl⟩ := child_walkBlock hn hd
      · exact ⟨d, h, dims_rfl⟩
      · exact ⟨c, hc, hop c⟩

theorem blank_walkBlock {nesting : NestingMode} {op : Value → Value} {s p : Path} (hs : nesting.Enters s)
    (hop : ∀ c, Blank (op c) p) (v : Value) : Blank (WriteOnly.walkBlock nesting op v) (s ++ p) := by
  cases nesting with
  | single =>
      cases s with
      | nil => exact hop v
      | cons _ _ => exact hs.elim
  | list | set =>
      rcases s with _ | ⟨_ | i | _, _ | _⟩ <;> try exact hs.elim
      rw [List.singleton_append, blank_cons]
      intro d hd
      cases v with
      | list items | set items =>
          obtain ⟨c, -, rfl⟩ := child_items_map hd
          exact hop c
      | _ => cases hd
  | map =>
      rcases s with _ | ⟨_ | _ | k, _ | _⟩ <;> try exact hs.elim
      rw [List.singleton_append, blank_cons]
      intro d hd
      cases v with
      | map entries =>
          have hd : (entries.map op).get? k = some d := hd
          rw [OrdMap.get?_map] at hd
          obtain ⟨c, -, rfl⟩ := Option.map_eq_some_iff.mp hd
          exact hop c
      | _ => cases hd

theorem dims_foldl {α : Type} {f : Fields → α → Fields}
    (hf : ∀ fields a, Dims (.object fields) (.object (f fields a))) (l : List α) (fields : Fields) :
    Dims (.object fields) (.object (l.foldl f fields)) := by
  induction l generalizing fields with
  | nil => exact dims_rfl
  | cons a l ih => exact fun p hp => ih _ p (hf fields a p hp)

theorem blank_foldl {α : Type} {f : Fields → α → Fields}
    (hf : ∀ fields a, Dims (.object fields) (.object (f fields a))) {l : List α} {a : α} (ha : a ∈ l) {p : Path}
    (hblank : ∀ fields, Blank (.object (f fields a)) p) (fields : Fields) :
    Blank (.object (l.foldl f fields)) p := by
  induction l generalizing fields with
  | nil => cases ha
  | cons b l ih =>
      rcases List.mem_cons.mp ha with rfl | ha
      · exact dims_foldl hf l _ p (hblank fields)
      · exact ih ha _

theorem strip_object (block : Block) (fields : Fields) : WriteOnly.strip (.object fields) block =
    .object (block.nestedBlocks.foldl (fun fields nested => fields.modify nested.name
      (WriteOnly.walkBlock nested.nesting fun v => WriteOnly.strip v nested.block))
      (block.attributes.foldl WriteOnly.stripAttribute fields)) := by
  obtain ⟨attributes, nestedBlocks⟩ := block
  rw [WriteOnly.strip, stripNested_eq]

theorem strip_of_not_object {block : Block} {v : Value} (h : ∀ fields, v ≠ .object fields) :
    WriteOnly.strip v block = v := by
  rw [strip_eq, updateAttrs_of_not_object _ _ _ h]

theorem dims_stripAttribute (fields : Fields) (attr : AttributeSchema) :
    Dims (.object fields) (.object (WriteOnly.stripAttribute fields attr)) := by
  rw [WriteOnly.stripAttribute]
  split_ifs
  · exact dims_modify fun c => dims_null
  · exact dims_rfl

theorem dims_strip (block : Block) (v : Value) : Dims v (WriteOnly.strip v block) := by
  induction block using Block.induct generalizing v with
  | mk attributes nestedBlocks ih =>
      cases v with
      | object fields =>
          rw [strip_object]
          have hnested : ∀ l : List NestedBlock, (∀ nested ∈ l, nested ∈ nestedBlocks) → ∀ fields : Fields,
              Dims (.object fields) (.object (l.foldl (fun fields nested => fields.modify nested.name
                (WriteOnly.walkBlock nested.nesting fun v => WriteOnly.strip v nested.block)) fields)) := by
            intro l hl
            induction l with
            | nil => exact fun fields => dims_rfl
            | cons nested rest ihl =>
                intro fields p hp
                apply ihl (fun n hn => hl n (List.mem_cons_of_mem _ hn)) _ p
                exact dims_modify (dims_walkBlock (ih nested (hl nested List.mem_cons_self))) p hp
          intro p hp
          apply hnested nestedBlocks (fun _ h => h) _ p
          exact dims_foldl dims_stripAttribute attributes fields p hp
      | _ =>
          rw [strip_of_not_object fun _ h => by cases h]
          exact dims_rfl

theorem blank_strip {block : Block} {p : Path} (h : WriteOnlyPath block p) (v : Value) :
    Blank (WriteOnly.strip v block) p := by
  induction h generalizing v with
  | here block attr ha hwrite =>
      cases v with
      | object fields =>
          rw [strip_object]
          refine dims_foldl ?_ block.nestedBlocks _ _ ?_
          · exact fun fields nested => dims_modify (dims_walkBlock (dims_strip nested.block))
          · refine blank_foldl dims_stripAttribute ha ?_ fields
            intro fields
            rw [WriteOnly.stripAttribute, if_pos hwrite, blank_object]
            intro c hc
            rw [OrdMap.get?_modify, if_pos rfl] at hc
            obtain ⟨_, -, rfl⟩ := Option.map_eq_some_iff.mp hc
            exact blank_nil.mpr rfl
      | _ => exact (dims_strip block _) _ (blank_attribute (fun _ h => by cases h) _ _)
  | nested block nested s p hn hs _ ih =>
      cases v with
      | object fields =>
          rw [strip_object]
          refine blank_foldl ?_ hn ?_ _
          · exact fun fields nested => dims_modify (dims_walkBlock (dims_strip nested.block))
          · intro fields
            rw [blank_object]
            intro c hc
            rw [OrdMap.get?_modify, if_pos rfl] at hc
            obtain ⟨child, -, rfl⟩ := Option.map_eq_some_iff.mp hc
            exact blank_walkBlock hs ih child
      | _ => exact (dims_strip block _) _ (blank_attribute (fun _ h => by cases h) _ _)

theorem redacted_strip (block : Block) (v : Value) : Redacted block (WriteOnly.strip v block) :=
  fun _ h => blank_strip h v

theorem redacted_plan (prior proposed : Value) (block : Block) :
    Redacted block (plan prior proposed block).planned := by
  rw [plan]
  split_ifs
  · exact redacted_of_not_object fun _ h => by cases h
  · exact redacted_strip block _

section

variable {crates : Crates} {x y : Value}

def Mp.isMarker : Mp → Bool
  | .nil | .ext _ _ => true
  | _ => false

theorem isMarker_numberToMp (n : Number) : (numberToMp n).isMarker = false := by
  cases n with
  | f64 f =>
      rw [numberToMp]
      split_ifs <;> rfl
  | _ => rfl

theorem isMarker_toMp {ty : Ty} {mp : Mp} (hn : x.isNull = false) (hu : x.isUnknown = false)
    (h : toMp crates x ty = .ok mp) : mp.isMarker = false := by
  rw [toMp_eq crates hn hu] at h
  cases ty with
  | bool | string =>
      obtain ⟨_, -, rfl⟩ := Outcome.map_eq_ok.mp h
      rfl
  | number =>
      obtain ⟨n, -, rfl⟩ := Outcome.map_eq_ok.mp h
      exact isMarker_numberToMp n
  | list elem | set elem =>
      obtain ⟨items, -, h⟩ := Outcome.bind_eq_ok.mp h
      obtain ⟨_, -, rfl⟩ := Outcome.map_eq_ok.mp h
      rfl
  | map elem =>
      obtain ⟨entries, -, h⟩ := Outcome.bind_eq_ok.mp h
      rw [encodeMap_eq] at h
      obtain ⟨_, -, rfl⟩ := Outcome.map_eq_ok.mp h
      rfl
  | object attrs =>
      obtain ⟨fields, -, h⟩ := Outcome.bind_eq_ok.mp h
      rw [encodeObject_eq] at h
      obtain ⟨_, -, rfl⟩ := Outcome.map_eq_ok.mp h
      rfl
  | tuple elems =>
      obtain ⟨items, -, h⟩ := Outcome.bind_eq_ok.mp h
      split_ifs at h
      obtain ⟨_, -, rfl⟩ := Outcome.map_eq_ok.mp h
      rfl
  | dynamic =>
      obtain ⟨inner, -, h⟩ := Outcome.bind_eq_ok.mp h
      obtain rfl := Except.ok.inj h
      rfl

theorem toMp_eq_nil {ty : Ty} (h : toMp crates x ty = .ok .nil) : x = .null := by
  cases hn : x.isNull with
  | true => exact isNull_iff.mp hn
  | false =>
      cases hu : x.isUnknown with
      | true =>
          cases x with
          | unknown => cases h
          | _ => cases hu
      | false => cases isMarker_toMp hn hu h

theorem toMp_eq_ext {ty : Ty} {kind : UInt8} {bytes : Bytes} (h : toMp crates x ty = .ok (.ext kind bytes)) :
    x = .unknown := by
  cases hu : x.isUnknown with
  | true =>
      cases x with
      | unknown => rfl
      | _ => cases hu
  | false =>
      cases hn : x.isNull with
      | true =>
          obtain rfl := isNull_iff.mp hn
          cases h
      | false => cases isMarker_toMp hn hu h

def Alike (crates : Crates) (ty : Ty) (x y : Value) : Prop :=
  ∃ mp, toMp crates x ty = .ok mp ∧ toMp crates y ty = .ok mp

theorem Alike.null {ty : Ty} (h : Alike crates ty .null y) : y = .null := by
  obtain ⟨mp, hx, hy⟩ := h
  cases hx
  exact toMp_eq_nil hy

theorem Alike.unknown {ty : Ty} (h : Alike crates ty .unknown y) : y = .unknown := by
  obtain ⟨mp, hx, hy⟩ := h
  cases hx
  exact toMp_eq_ext hy

theorem Alike.attribute {attrs : List ObjectAttr} {fields : Fields}
    (h : Alike crates (.object attrs) x (.object fields))
    {attr : ObjectAttr} (ha : attr ∈ attrs) : ∃ fields', x = .object fields' ∧
      Alike crates attr.ty ((fields'.get? attr.name).getD .null) ((fields.get? attr.name).getD .null) := by
  obtain ⟨mp, hx, hy⟩ := h
  rw [toMp_eq crates rfl rfl] at hy
  have hy : encodeObject crates fields attrs = .ok mp := hy
  rw [encodeObject_eq] at hy
  obtain ⟨pairs, hpairs, rfl⟩ := Outcome.map_eq_ok.mp hy
  cases x with
  | object fields' =>
      have hx : encodeObject crates fields' attrs = .ok (.map pairs) := hx
      rw [encodeObject_eq] at hx
      obtain ⟨pairs', hpairs', heq⟩ := Outcome.map_eq_ok.mp hx
      obtain rfl := Mp.map.inj heq
      have hall := Outcome.mapM_agree hpairs' hpairs
      rw [List.forall₂_same] at hall
      obtain ⟨pair, hp, hp'⟩ := hall attr (mem_sortedByName.mpr ha)
      obtain ⟨mp, hmp, rfl⟩ := Outcome.map_eq_ok.mp hp
      obtain ⟨mp', hmp', heq⟩ := Outcome.map_eq_ok.mp hp'
      exact ⟨fields', rfl, mp, hmp, (Prod.mk.inj heq).2 ▸ hmp'⟩
  | _ => cases hx

theorem agree_items {elem : Ty} {xs ys : List Value} {mps : List Mp} (hx : encodeEach crates xs elem = .ok mps)
    (hy : encodeEach crates ys elem = .ok mps) {i : Int} {d : Value}
    (hd : (if 0 ≤ i then ys[i.toNat]? else none) = some d) :
    ∃ c, (if 0 ≤ i then xs[i.toNat]? else none) = some c ∧ Alike crates elem c d := by
  rw [encodeEach_eq] at hx hy
  split_ifs at hd with hi
  obtain ⟨hlen, hget⟩ := List.forall₂_iff_get.mp (Outcome.mapM_agree hx hy)
  obtain ⟨hlt, rfl⟩ := List.getElem?_eq_some_iff.mp hd
  refine ⟨xs[i.toNat], ?_, hget i.toNat (hlen ▸ hlt) hlt⟩
  rw [if_pos hi]
  exact List.getElem?_eq_getElem (hlen ▸ hlt)

theorem agree_entries {elem : Ty} {xs ys : Fields} {mp : Mp} (hx : encodeMap crates xs elem = .ok mp)
    (hy : encodeMap crates ys elem = .ok mp) {k : String} {d : Value} (hd : ys.get? k = some d) :
    ∃ c, xs.get? k = some c ∧ Alike crates elem c d := by
  rw [encodeMap_eq] at hx hy
  obtain ⟨pairs, hpairs, rfl⟩ := Outcome.map_eq_ok.mp hy
  obtain ⟨pairs', hpairs', heq⟩ := Outcome.map_eq_ok.mp hx
  obtain rfl := Mp.map.inj heq
  obtain ⟨hlen, hget⟩ := List.forall₂_iff_get.mp (Outcome.mapM_agree hpairs' hpairs)
  obtain ⟨i, hi, hkd⟩ := List.getElem_of_mem (OrdMap.mem_toList.mpr hd)
  obtain ⟨pair, hc, hd'⟩ := hget i (hlen ▸ hi) hi
  obtain ⟨mp, hmp, rfl⟩ := Outcome.map_eq_ok.mp hc
  obtain ⟨mp', hmp', heq⟩ := Outcome.map_eq_ok.mp hd'
  obtain ⟨hkey, rfl⟩ := Prod.mk.inj heq
  have hkey : k = (xs.toList.get ⟨i, hlen ▸ hi⟩).1 := by simpa [hkd] using hkey
  refine ⟨(xs.toList.get ⟨i, hlen ▸ hi⟩).2, ?_, mp', hmp, ?_⟩
  · rw [← OrdMap.mem_toList, hkey]
    exact List.get_mem _ _
  · simpa [hkd] using hmp'

theorem Alike.elementAt {nested : NestedBlock} {s : Path} {elem : Value} (h : Alike crates nested.ctyType x y)
    (helem : elementAt nested.nesting y s = some elem) :
    ∃ elem', TofuSdk.elementAt nested.nesting x s = some elem' ∧ Alike crates nested.block.ctyType elem' elem := by
  obtain ⟨name, nesting, block, minItems, maxItems⟩ := nested
  obtain ⟨mp, hmp, hmp'⟩ := h
  cases nesting with
  | single =>
      cases s with
      | nil =>
          obtain rfl := Option.some.inj helem
          exact ⟨x, rfl, mp, hmp, hmp'⟩
      | cons _ _ => cases helem
  | list =>
      obtain ⟨ys, rfl, -⟩ := elementAt_list helem
      rcases s with _ | ⟨_ | i | _, _ | _⟩ <;> try cases helem
      obtain ⟨mps, hys, rfl⟩ := Outcome.map_eq_ok.mp hmp'
      cases x with
      | list xs =>
          obtain ⟨mps', hxs, heq⟩ := Outcome.map_eq_ok.mp hmp
          obtain rfl := Mp.array.inj heq
          exact agree_items hxs hys helem
      | _ => cases hmp
  | set =>
      obtain ⟨ys, rfl, -⟩ := elementAt_set helem
      rcases s with _ | ⟨_ | i | _, _ | _⟩ <;> try cases helem
      obtain ⟨mps, hys, rfl⟩ := Outcome.map_eq_ok.mp hmp'
      cases x with
      | set xs =>
          obtain ⟨mps', hxs, heq⟩ := Outcome.map_eq_ok.mp hmp
          obtain rfl := Mp.array.inj heq
          exact agree_items hxs hys helem
      | _ => cases hmp
  | map =>
      obtain ⟨ys, rfl, -⟩ := elementAt_map helem
      rcases s with _ | ⟨_ | _ | k, _ | _⟩ <;> try cases helem
      have hys : encodeMap crates ys block.ctyType = .ok mp := hmp'
      rw [encodeMap_eq] at hys
      obtain ⟨pairs, -, rfl⟩ := Outcome.map_eq_ok.mp hys
      cases x with
      | map xs => exact agree_entries hmp hmp' helem
      | _ => cases hmp

theorem Alike.container {nested : NestedBlock} {s : Path} {d : Value} (hs : nested.nesting.Enters s)
    (h : Alike crates nested.ctyType x y) (hd : getAtPath y s = some d) :
    ∀ kind ∈ nested.nesting.container, y.kind = kind := by
  obtain ⟨name, nesting, block, minItems, maxItems⟩ := nested
  obtain ⟨mp, -, hy⟩ := h
  intro kind hkind
  cases nesting with
  | single => cases hkind
  | list | set | map =>
      cases hkind
      cases y with
      | null | unknown =>
          rcases s with _ | ⟨_ | _ | _, _ | _⟩ <;> first | exact hs.elim | cases hd
      | _ => first | rfl | cases hy

theorem Alike.blank_element {nested : NestedBlock} {s p : Path} (hs : nested.nesting.Enters s)
    (hstep : ∀ c d, Alike crates nested.block.ctyType c d → Blank c p → Blank d p)
    (h : Alike crates nested.ctyType x y) (hx : Blank x (s ++ p)) : Blank y (s ++ p) := by
  intro v hv
  rw [getAtPath_append] at hv
  obtain ⟨d, hd, hdv⟩ := Option.bind_eq_some_iff.mp hv
  obtain ⟨c, hc, halike⟩ := h.elementAt (elementAt_eq_some.mpr ⟨hs, h.container hs hd, hd⟩)
  refine hstep c d halike ?_ v hdv
  intro w hw
  apply hx
  rw [getAtPath_append, (elementAt_eq_some.mp hc).2.2]
  exact hw

theorem Alike.blank {block : Block} {p : Path} (hp : WriteOnlyPath block p) (h : Alike crates block.ctyType x y)
    (hx : Blank x p) : Blank y p := by
  induction hp generalizing x y with
  | here block attr ha _ =>
      cases y with
      | object fields =>
          rw [Block.ctyType_eq] at h
          obtain ⟨fields', rfl, halike⟩ := h.attribute (List.mem_append_left _ (List.mem_map_of_mem ha))
          rw [blank_object] at hx ⊢
          intro c hc
          have hnull : (fields'.get? attr.name).getD .null = .null := by
            cases hd : fields'.get? attr.name with
            | none => rfl
            | some d => exact blank_nil.mp (hx d hd)
          rw [hnull, hc] at halike
          exact blank_nil.mpr halike.null
      | _ => exact blank_attribute (fun _ h => by cases h) _ _
  | nested block nested s p hn hs _ ih =>
      cases y with
      | object fields =>
          rw [Block.ctyType_eq] at h
          obtain ⟨fields', rfl, halike⟩ := h.attribute (List.mem_append_right _ (List.mem_map_of_mem hn))
          rw [blank_object] at hx ⊢
          intro c hc
          rw [hc] at halike
          refine Alike.blank_element hs (fun c d hcd hc => ih hcd hc) halike ?_
          cases hd : fields'.get? nested.name with
          | none => exact blank_null _
          | some d => exact hx d hd
      | _ => exact blank_attribute (fun _ h => by cases h) _ _

end

end TofuSdk
