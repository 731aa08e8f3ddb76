import TofuSdk.Paths
import TofuSdk.NativeBlock
import TofuSdk.JsBoundary

namespace TofuSdk

open ValueOf

/-- A member of an object by its name, or an element of an array. -/
inductive JsStep
  | name (k : String)
  | index (i : Nat)
deriving DecidableEq

namespace JsStep

def child (v : Value) (s : JsStep) : Option Value :=
  match s, v with
  | .name k, .object fields | .name k, .map fields => fields.get? k
  | .index i, .list items | .index i, .set items | .index i, .tuple items => items[i]?
  | _, _ => none

def update (v : Value) (s : JsStep) (f : Value → Value) : Value :=
  match s, v with
  | .name k, .object fields => .object (fields.modify k f)
  | .name k, .map entries => .map (entries.modify k f)
  | .index i, .list items => .list (items.modify i f)
  | .index i, .set items => .set (items.modify i f)
  | .index i, .tuple items => .tuple (items.modify i f)
  | _, v => v

theorem child_update_self (v : Value) (s : JsStep) (f : Value → Value) :
    child (update v s f) s = (child v s).map f := by
  cases s with
  | name k => cases v <;> simp [child, update, OrdMap.get?_modify]
  | index i => cases v <;> simp [child, update]

theorem child_update_of_ne (v : Value) (s : JsStep) (f : Value → Value) (s' : JsStep) (hne : s' ≠ s) :
    child (update v s f) s' = child v s' := by
  cases s with
  | name k =>
      cases s' with
      | name k' =>
          have hk : k' ≠ k := fun h => hne (congrArg JsStep.name h)
          cases v <;> simp [child, update, OrdMap.get?_modify, hk]
      | index i => cases v <;> rfl
  | index i =>
      cases s' with
      | name k => cases v <;> rfl
      | index j =>
          have hj : i ≠ j := fun h => hne (congrArg JsStep.index h.symm)
          cases v <;> simp [child, update, hj]

theorem update_congr {v : Value} {s : JsStep} {f g : Value → Value} (h : ∀ c, child v s = some c → f c = g c) :
    update v s f = update v s g := by
  cases s with
  | name k =>
      cases v with
      | object fields => exact congrArg ValueOf.object (OrdMap.modify_congr h)
      | map entries => exact congrArg ValueOf.map (OrdMap.modify_congr h)
      | _ => rfl
  | index i =>
      cases v with
      | list items => exact congrArg ValueOf.list (PathStep.items_modify_congr h)
      | set items => exact congrArg ValueOf.set (PathStep.items_modify_congr h)
      | tuple items => exact congrArg ValueOf.tuple (PathStep.items_modify_congr h)
      | _ => rfl

theorem update_self (v : Value) (s : JsStep) : (update v s fun c => c) = v := by
  cases s with
  | name k => cases v <;> simp [update, OrdMap.modify_eq_self]
  | index i => cases v <;> simp [update, PathStep.items_modify_eq_self]

theorem update_eq_self (v : Value) (s : JsStep) (f : Value → Value) (h : ∀ c, child v s = some c → f c = c) :
    update v s f = v := by
  rw [update_congr h, update_self]

theorem update_update (v : Value) (s : JsStep) (f g : Value → Value) :
    update (update v s f) s g = update v s fun c => g (f c) := by
  cases s with
  | name k => cases v <;> simp [update, OrdMap.modify_modify]
  | index i => cases v <;> simp [update, List.modify_modify_eq, Function.comp_def]

theorem update_comm (v : Value) (s t : JsStep) (f g : Value → Value) (hne : s ≠ t) :
    update (update v s f) t g = update (update v t g) s f := by
  cases s with
  | name k =>
      cases t with
      | name k' =>
          have hk : k ≠ k' := fun h => hne (congrArg JsStep.name h)
          cases v <;> simp [update, OrdMap.modify_comm _ hk f g]
      | index i => cases v <;> rfl
  | index i =>
      cases t with
      | name k => cases v <;> rfl
      | index j =>
          have hij : i ≠ j := fun h => hne (congrArg JsStep.index h)
          cases v <;> simp [update, List.modify_modify_ne f g _ hij]

end JsStep

def jsView : TreePath Value JsStep where
  child := JsStep.child
  update := JsStep.update
  child_update_self := JsStep.child_update_self
  child_update_of_ne := JsStep.child_update_of_ne
  update_eq_self := JsStep.update_eq_self

theorem jsView_composes : jsView.Composes := ⟨JsStep.update_update, JsStep.update_comm⟩

def VNumber.fitsI64 (n : VNumber) : Option Int :=
  match n.number.exact with
  | .finite q => if q.den = 1 ∧ -2 ^ 63 ≤ q.num ∧ q.num < 2 ^ 63 then some q.num else none
  | _ => none

/-- A step that is neither a name nor an index addresses nothing. No array is
longer than an `i64`. -/
def JsStep.ofJson : Json → Option JsStep
  | .string k => some (.name k)
  | .number n => n.fitsI64.bind fun i => if 0 ≤ i then some (.index i.toNat) else none
  | _ => none

namespace Json

def child (json : Json) (s : JsStep) : Option Json :=
  match s, json with
  | .name k, .object fields => fields.get? k
  | .index i, .array items => items[i]?
  | _, _ => none

def follow (json : Json) : List JsStep → Option Json
  | [] => some json
  | s :: js => (json.child s).bind fun c => follow c js

def jsPath : Json → Option (List JsStep)
  | .array steps => steps.mapM JsStep.ofJson
  | _ => none

end Json

def entersMapOrTuple : List JsStep → Value → Bool
  | [], _ => false
  | _ :: _, .map _ | _ :: _, .tuple _ => true
  | s :: js, v => (JsStep.child v s).any (entersMapOrTuple js)

namespace Node

variable (crates : Crates)

/-- A string names an attribute, an integer is the index of an element, and
anything else is skipped. -/
def parseStep (step : Json) : Option PathStep :=
  match step.asString with
  | some name => some (.attribute name)
  | none => (step.asNumber.bind crates.toI64).map fun index => .index index.toInt

def parsePath (value : Json) : Path :=
  match value with
  | .array steps => steps.filterMap (parseStep crates)
  | _ => []

def parsePlanModifications (json : Bytes) : Except String PlanModifications := do
  match ← crates.fromSlice json with
  | .object obj =>
      let paths := fun key => match obj.get? key with
        | some (.array paths) => paths.map (parsePath crates)
        | _ => []
      .ok ⟨paths "replace", paths "unknown", paths "keepPrior"⟩
  | _ => .error "modify_plan output must be an object"

end Node

def JsStep.toPathStep : JsStep → PathStep
  | .name k => .attribute k
  | .index i => .index i

section

variable {crates : Crates}

theorem toI64_of_fitsI64 (hnum : crates.CountsNumbers) {n : VNumber} {i : Int} (h : n.fitsI64 = some i) :
    ∃ index : Int64, crates.toI64 n = some index ∧ index.toInt = i := by
  rw [VNumber.fitsI64] at h
  split at h
  next q hq =>
    split_ifs at h with hrange
    cases h
    obtain ⟨hden, hlo, hhi⟩ := hrange
    have htoInt : (Int64.ofInt q.num).toInt = q.num := Int64.toInt_ofInt_of_le hlo hhi
    refine ⟨Int64.ofInt q.num, (hnum.toI64 n _).mpr (.inl ?_), htoInt⟩
    rw [hq, htoInt, (Rat.den_eq_one_iff q).mp hden]
  next => cases h

theorem JsStep.parseStep_of_ofJson (hnum : crates.CountsNumbers) {step : Json} {s : JsStep}
    (h : JsStep.ofJson step = some s) : Node.parseStep crates step = some s.toPathStep := by
  cases step with
  | string k =>
      cases h
      rfl
  | number n =>
      obtain ⟨i, hi, h⟩ := Option.bind_eq_some_iff.mp h
      split_ifs at h with hnonneg
      cases h
      obtain ⟨index, hindex, rfl⟩ := toI64_of_fitsI64 hnum hi
      change ((crates.toI64 n).map fun index => PathStep.index index.toInt) = some (.index (index.toInt.toNat : Int))
      rw [hindex, Int.toNat_of_nonneg hnonneg]
      rfl
  | _ => cases h

theorem Node.parsePath_of_jsPath (hnum : crates.CountsNumbers) {json : Json} {js : List JsStep}
    (h : json.jsPath = some js) : Node.parsePath crates json = js.map JsStep.toPathStep := by
  cases json with
  | array steps =>
      rw [Json.jsPath] at h
      rw [Node.parsePath]
      induction steps generalizing js with
      | nil =>
          cases h
          rfl
      | cons step steps ih =>
          rw [List.mapM_cons] at h
          obtain ⟨s, hs, h⟩ := Option.bind_eq_some_iff.mp h
          obtain ⟨js', hjs, h⟩ := Option.bind_eq_some_iff.mp h
          cases h
          rw [List.filterMap_cons, JsStep.parseStep_of_ofJson hnum hs, ih hjs, List.map_cons]
  | _ => cases h

theorem child_encodeJson (hholds : crates.HoldsNumbers) (v : Value) (s : JsStep) :
    (encodeJson crates v).child s = (JsStep.child v s).map (encodeJson crates) := by
  cases v with
  | number n =>
      have hn : (encodeJson crates (.number n)).child s = none := by
        rw [encodeJson, numberToJson_eq hholds]
        cases s <;> rfl
      rw [hn]
      cases s <;> rfl
  | list items => cases s <;> simp [encodeJson_list, Json.child, JsStep.child]
  | set items => cases s <;> simp [encodeJson_set, Json.child, JsStep.child]
  | tuple items => cases s <;> simp [encodeJson_tuple, Json.child, JsStep.child]
  | map entries => cases s <;> simp [encodeJson_map, Json.child, JsStep.child, OrdMap.get?_map]
  | object fields => cases s <;> simp [encodeJson_object, Json.child, JsStep.child, OrdMap.get?_map]
  | _ => cases s <;> rfl

theorem follow_encodeJson (hholds : crates.HoldsNumbers) (v : Value) (js : List JsStep) :
    (encodeJson crates v).follow js = (jsView.get v js).map (encodeJson crates) := by
  induction js generalizing v with
  | nil => rfl
  | cons s js ih =>
      rw [Json.follow, child_encodeJson hholds, TreePath.get_cons, Option.bind_map, Option.map_bind]
      apply congrArg
      funext c
      exact ih c

end

section

variable {v : Value} {s : JsStep}

theorem child_toPathStep (hmap : ∀ entries, v ≠ .map entries) (htuple : ∀ items, v ≠ .tuple items) :
    PathStep.child v s.toPathStep = JsStep.child v s := by
  cases s with
  | name k =>
      cases v with
      | map entries => exact absurd rfl (hmap entries)
      | _ => rfl
  | index i =>
      cases v with
      | tuple items => exact absurd rfl (htuple items)
      | _ => simp [PathStep.child, JsStep.child, JsStep.toPathStep]

theorem update_toPathStep (hmap : ∀ entries, v ≠ .map entries) (htuple : ∀ items, v ≠ .tuple items)
    (f : Value → Value) : PathStep.update v s.toPathStep f = JsStep.update v s f := by
  cases s with
  | name k =>
      cases v with
      | map entries => exact absurd rfl (hmap entries)
      | _ => rfl
  | index i =>
      cases v with
      | tuple items => exact absurd rfl (htuple items)
      | _ => simp [PathStep.update, JsStep.update, JsStep.toPathStep]

end

theorem entersMapOrTuple_cons {v : Value} (hmap : ∀ entries, v ≠ .map entries) (htuple : ∀ items, v ≠ .tuple items)
    (s : JsStep) (js : List JsStep) :
    entersMapOrTuple (s :: js) v = (JsStep.child v s).any (entersMapOrTuple js) := by
  cases v with
  | map entries => exact absurd rfl (hmap entries)
  | tuple items => exact absurd rfl (htuple items)
  | _ => rfl

theorem ne_of_not_enters {v : Value} {s : JsStep} {js : List JsStep} (h : entersMapOrTuple (s :: js) v = false) :
    (∀ entries, v ≠ .map entries) ∧ ∀ items, v ≠ .tuple items := by
  constructor
  · rintro entries rfl
    cases h
  · rintro items rfl
    cases h

theorem getAtPath_of_enters {v : Value} {js : List JsStep} (h : entersMapOrTuple js v = true) :
    getAtPath v (js.map JsStep.toPathStep) = none := by
  rw [getAtPath_eq]
  induction js generalizing v with
  | nil => cases h
  | cons s js ih =>
      rw [List.map_cons, TreePath.get_cons]
      by_cases hmap : ∃ entries, v = .map entries
      · obtain ⟨entries, rfl⟩ := hmap
        cases s <;> rfl
      by_cases htuple : ∃ items, v = .tuple items
      · obtain ⟨items, rfl⟩ := htuple
        cases s <;> rfl
      push Not at hmap htuple
      rw [entersMapOrTuple_cons hmap htuple] at h
      obtain ⟨c, hc, hjs⟩ := (Option.any_eq_true _ _).mp h
      have hchild : valueTree.child v s.toPathStep = some c := (child_toPathStep hmap htuple).trans hc
      rw [hchild, Option.bind_some]
      exact ih hjs

theorem setAtPath_of_not_enters {v : Value} {js : List JsStep} (h : entersMapOrTuple js v = false) (leaf : Value) :
    setAtPath v (js.map JsStep.toPathStep) leaf = jsView.set v js leaf := by
  rw [setAtPath_eq]
  induction js generalizing v with
  | nil => rfl
  | cons s js ih =>
      obtain ⟨hmap, htuple⟩ := ne_of_not_enters h
      rw [entersMapOrTuple_cons hmap htuple] at h
      rw [List.map_cons, TreePath.set_cons, TreePath.set_cons]
      refine (update_toPathStep hmap htuple _).trans (JsStep.update_congr ?_)
      intro c hc
      rw [hc, Option.any_some] at h
      exact ih h

def ValueOf.frame : Value → Value
  | .list items => .list (items.map fun _ => .null)
  | .set items => .set (items.map fun _ => .null)
  | .tuple items => .tuple (items.map fun _ => .null)
  | .map entries => .map (entries.map fun _ => .null)
  | .object fields => .object (fields.map fun _ => .null)
  | v => v

theorem frame_update (v : Value) (s : JsStep) (f : Value → Value) : (JsStep.update v s f).frame = v.frame := by
  cases s with
  | name k =>
      cases v with
      | object fields =>
          apply congrArg ValueOf.object
          apply OrdMap.map_modify
          intro a
          rfl
      | map entries =>
          apply congrArg ValueOf.map
          apply OrdMap.map_modify
          intro a
          rfl
      | _ => rfl
  | index i => cases v <;> simp [JsStep.update, frame]

/-- One value is another with something else at one location: what lies apart
from it is the same, and so is what the values above it are. -/
structure ChangesOnly (v w : Value) (js : List JsStep) (leaf : Value) : Prop where
  there : jsView.get w js = some leaf
  apart : ∀ q, ¬js <+: q → ¬q <+: js → jsView.get w q = jsView.get v q
  frame : ∀ q, ¬js <+: q → (jsView.get w q).map frame = (jsView.get v q).map frame

theorem changesOnly_set {v : Value} {js : List JsStep} (h : (jsView.get v js).isSome) (leaf : Value) :
    ChangesOnly v (jsView.set v js leaf) js leaf where
  there := jsView_composes.lens.get_set v js leaf h
  apart q := jsView_composes.lens.get_set_apart v js q leaf
  frame _ := TreePath.tag_get_set frame_update

section

variable (crates : Crates)

/-- A path addresses what it leads to in the JSON of a value. -/
def Json.Addresses (json : Json) (v : Value) (js : List JsStep) : Prop :=
  json.jsPath = some js ∧ ((encodeJson crates v).follow js).isSome

/-- Every location of the JSON can be modified, and no path without one is
taken for one. -/
structure ReachesTarget (v : Value) (json : Json) : Prop where
  reached : ∀ js, json.Addresses crates v js → ∀ leaf,
    ChangesOnly v (setAtPath v (Node.parsePath crates json) leaf) js leaf
  malformed : json.jsPath = none → ∀ w, getAtPath w (Node.parsePath crates json) = none

/-- What a path of attribute names and of indices into lists and sets does. -/
structure FollowsPath (v : Value) (json : Json) : Prop where
  reached : ∀ js, json.Addresses crates v js → entersMapOrTuple js v = false →
    ∀ leaf, ChangesOnly v (setAtPath v (Node.parsePath crates json) leaf) js leaf
  entered : ∀ js, json.Addresses crates v js → entersMapOrTuple js v = true →
    ∀ leaf, setAtPath v (Node.parsePath crates json) leaf = v
  nowhere : ∀ js, json.jsPath = some js → (encodeJson crates v).follow js = none →
    ∀ leaf, setAtPath v (Node.parsePath crates json) leaf = v
  negative : ∀ steps n i, json = .array steps → .number n ∈ steps → n.fitsI64 = some i → i < 0 →
    ∀ w, getAtPath w (Node.parsePath crates json) = none

end

section

variable {crates : Crates}

theorem getAtPath_of_negative (hnum : crates.CountsNumbers) {steps : List Json} {n : VNumber} {i : Int}
    (hn : .number n ∈ steps) (hi : n.fitsI64 = some i) (hneg : i < 0) (w : Value) :
    getAtPath w (Node.parsePath crates (.array steps)) = none := by
  obtain ⟨index, hindex, rfl⟩ := toI64_of_fitsI64 hnum hi
  have hstep : Node.parseStep crates (.number n) = some (.index index.toInt) := by
    change ((crates.toI64 n).map fun index => PathStep.index index.toInt) = some (.index index.toInt)
    rw [hindex, Option.map_some]
  have hmem : PathStep.index index.toInt ∈ Node.parsePath crates (.array steps) :=
    List.mem_filterMap.mpr ⟨.number n, hn, hstep⟩
  have hchild : ∀ c, valueTree.child c (.index index.toInt) = none := by
    intro c
    have hnonneg : ¬0 ≤ index.toInt := by omega
    cases c <;> simp [valueTree, PathStep.child, hnonneg]
  rw [getAtPath_eq]
  exact TreePath.get_eq_none_of_mem hchild hmem w

theorem Json.Addresses.isSome_get (hholds : crates.HoldsNumbers) {json : Json} {v : Value} {js : List JsStep}
    (h : json.Addresses crates v js) : (jsView.get v js).isSome := by
  have hsome := h.2
  rwa [follow_encodeJson hholds, Option.isSome_map] at hsome

theorem setAtPath_of_enters {v : Value} {js : List JsStep} (h : entersMapOrTuple js v = true) (leaf : Value) :
    setAtPath v (js.map JsStep.toPathStep) leaf = v := by
  have hget := getAtPath_of_enters h
  rw [getAtPath_eq] at hget
  rw [setAtPath_eq]
  exact TreePath.set_of_get_eq_none hget

theorem setAtPath_of_follow_eq_none (hholds : crates.HoldsNumbers) {v : Value} {js : List JsStep}
    (h : (encodeJson crates v).follow js = none) (leaf : Value) : setAtPath v (js.map JsStep.toPathStep) leaf = v := by
  cases henters : entersMapOrTuple js v with
  | true => exact setAtPath_of_enters henters leaf
  | false =>
      rw [follow_encodeJson hholds, Option.map_eq_none_iff] at h
      rw [setAtPath_of_not_enters henters]
      exact TreePath.set_of_get_eq_none h

theorem followsPath (hnum : crates.CountsNumbers) (v : Value) (json : Json) : FollowsPath crates v json where
  reached js h henters leaf := by
    rw [Node.parsePath_of_jsPath hnum h.1, setAtPath_of_not_enters henters]
    exact changesOnly_set (h.isSome_get hnum.toHoldsNumbers) leaf
  entered js h henters leaf := by
    rw [Node.parsePath_of_jsPath hnum h.1]
    exact setAtPath_of_enters henters leaf
  nowhere js h hfollow leaf := by
    rw [Node.parsePath_of_jsPath hnum h]
    exact setAtPath_of_follow_eq_none hnum.toHoldsNumbers hfollow leaf
  negative steps n i hjson hn hi hneg w := by
    rw [hjson]
    exact getAtPath_of_negative hnum hn hi hneg w

end

/-- The size of the second disk is made unknown. -/
theorem followsPath_disks :
    let v : Value := .object (.ofList [("disks", .list [.object (.ofList [("size", .number (.i64 10))]),
      .object (.ofList [("size", .number (.i64 20)), ("tags", .map (.ofList [("env", .string "prod")]))])])])
    let json := Json.array [.string "disks", .number ⟨.f64 (.ofInt 1)⟩, .string "size"]
    ChangesOnly v (setAtPath v (Node.parsePath Crates.real json) .unknown)
      [.name "disks", .index 1, .name "size"] .unknown :=
  (followsPath Crates.real_countsNumbers _ _).reached _ ⟨by decide +kernel, by decide +kernel⟩ (by decide +kernel) _

def taggedServer : Value :=
  .object (.ofList [("name", .string "web"), ("ports", .tuple [.number (.i64 80), .number (.i64 443)]),
    ("tags", .map (.ofList [("env", .string "prod")]))])

/-- Neither the entry of a map nor an element of a tuple is reached, a step
that is none shortens the path, and what is no path addresses all. -/
theorem taggedServer_missed :
    ¬ReachesTarget Crates.real taggedServer (.array [.string "tags", .string "env"]) ∧
    ¬ReachesTarget Crates.real taggedServer (.array [.string "ports", .number ⟨.i64 0⟩]) ∧
    ¬ReachesTarget Crates.real taggedServer (.array [.string "name", .null]) ∧
    ¬ReachesTarget Crates.real taggedServer (.string "name") := by
  refine ⟨?_, ?_, ?_, ?_⟩
  · intro h
    have hthere := (h.reached [.name "tags", .name "env"] ⟨rfl, rfl⟩ .unknown).there
    cases hthere
  · intro h
    have hthere := (h.reached [.name "ports", .index 0] ⟨rfl, rfl⟩ .unknown).there
    cases hthere
  · intro h
    cases h.malformed rfl taggedServer
  · intro h
    cases h.malformed rfl taggedServer

end TofuSdk
