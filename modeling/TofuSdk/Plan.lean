import TofuSdk.Schema

namespace TofuSdk

inductive Selector
  | attributeName (name : String)
  | elementKeyString (key : String)
  | elementKeyInt (i : Int)
deriving DecidableEq

structure Step where
  selector : Option Selector
deriving DecidableEq

structure AttributePath where
  steps : List Step
deriving DecidableEq

def PathStep.toStep : PathStep → Step
  | .attribute name => ⟨some (.attributeName name)⟩
  | .index i => ⟨some (.elementKeyInt i)⟩
  | .key k => ⟨some (.elementKeyString k)⟩

def toAttributePath (path : Path) : AttributePath := ⟨path.map PathStep.toStep⟩

structure PlanModifications where
  requireReplace : List Path
  unknown : List Path
  keepPrior : List Path

def PlanModifications.empty : PlanModifications := ⟨[], [], []⟩

structure Plan where
  planned : Value
  requiresReplace : List AttributePath

namespace WriteOnly

mutual

def blockHas (block : Block) : Bool :=
  match block with
  | ⟨attributes, nestedBlocks⟩ => attributes.any (·.writeOnly) || anyBlockHas nestedBlocks
termination_by structural block

def anyBlockHas (nestedBlocks : List NestedBlock) : Bool :=
  match nestedBlocks with
  | [] => false
  | ⟨_, _, block, _, _⟩ :: rest => blockHas block || anyBlockHas rest
termination_by structural nestedBlocks

end

def walkBlock (nesting : NestingMode) (op : Value → Value) (value : Value) : Value :=
  match nesting, value with
  | .single, value => op value
  | .list, .list items | .set, .list items => .list (items.map op)
  | .list, .set items | .set, .set items => .set (items.map op)
  | .map, .map entries => .map (entries.map op)
  | _, value => value

def stripAttribute (fields : Fields) (attr : AttributeSchema) : Fields :=
  if attr.writeOnly then fields.modify attr.name fun _ => .null else fields

mutual

def strip (value : Value) (block : Block) : Value :=
  match block, value with
  | ⟨attributes, nestedBlocks⟩, .object fields =>
      .object (stripNested (attributes.foldl stripAttribute fields) nestedBlocks)
  | _, value => value
termination_by structural block

def stripNested (fields : Fields) (nestedBlocks : List NestedBlock) : Fields :=
  match nestedBlocks with
  | [] => fields
  | ⟨name, nesting, block, _, _⟩ :: rest =>
      stripNested (fields.modify name (walkBlock nesting fun v => strip v block)) rest
termination_by structural nestedBlocks

end

def mergeAttribute (config : Fields) (state : Fields) (attr : AttributeSchema) : Fields :=
  if attr.writeOnly then
    match config.get? attr.name with
    | some value => state.insert attr.name value
    | none => state
  else state

def zipInPlace {α β : Type} (f : α → β → α) : List α → List β → List α
  | a :: as, b :: bs => f a b :: zipInPlace f as bs
  | as, _ => as

mutual

/-- Copy the write-only values of the configuration into a state, aligning list
elements by index and map entries by key. Set elements cannot be aligned. -/
def mergeFromConfig (state config : Value) (block : Block) : Value :=
  match block, state, config with
  | ⟨attributes, nestedBlocks⟩, .object state, .object config =>
      .object (mergeNested (attributes.foldl (mergeAttribute config) state) config nestedBlocks)
  | _, state, _ => state
termination_by structural block

def mergeNested (state config : Fields) (nestedBlocks : List NestedBlock) : Fields :=
  match nestedBlocks with
  | [] => state
  | ⟨name, nesting, block, _, _⟩ :: rest =>
      let state := match config.get? name with
        | none => state
        | some configChild => state.modify name fun stateChild =>
            match nesting, stateChild, configChild with
            | .single, state, config => mergeFromConfig state config block
            | .list, .list states, .list configs =>
                .list (zipInPlace (fun s c => mergeFromConfig s c block) states configs)
            | .map, .map states, .map configs =>
                .map (states.mapWithKey fun key s => match configs.get? key with
                  | some c => mergeFromConfig s c block
                  | none => s)
            | _, state, _ => state
      mergeNested state config rest
termination_by structural nestedBlocks

end

end WriteOnly

def slotEq : Option Value → Option Value → Bool
  | none, none => true
  | some v, some w => v.eq w
  | _, _ => false

/-- The paths of the top-level `forceNew` attributes that differ from the prior
state. A create never replaces. -/
def requiresReplace (prior proposed : Value) (block : Block) : List AttributePath :=
  match prior, proposed with
  | .object priorFields, .object proposedFields =>
      (block.attributes.filter fun attr => attr.forceNew &&
        !slotEq (priorFields.get? attr.name) (proposedFields.get? attr.name)).map fun attr =>
          toAttributePath (Path.ofName attr.name)
  | _, _ => []

def isNullSlot : Option Value → Bool
  | none | some .null => true
  | _ => false

def markAttribute (replacing : Bool) (fields : Fields) (attr : AttributeSchema) : Fields :=
  if attr.required then fields
  else
    let isNull := isNullSlot (fields.get? attr.name)
    match isNull, attr.default with
    | true, some default => fields.insert attr.name default
    | _, _ =>
        if attr.computed && (replacing || isNull) then fields.insert attr.name .unknown else fields

def walkNesting (nesting : NestingMode) (element : Value → Value) (value : Value) : Value :=
  match nesting, value with
  | .single, value => element value
  | .list, .list items => .list (items.map element)
  | .set, .set items => .set (items.map element)
  | .map, .map entries => .map (entries.map element)
  | _, value => value

mutual

/-- Apply defaults and mark computed attributes unknown: those left unset, or
all of them when the resource is being replaced. -/
def markComputedUnknown (proposed : Value) (block : Block) (replacing : Bool) : Value :=
  match block, proposed with
  | ⟨attributes, nestedBlocks⟩, .object fields =>
      .object (markNestedBlocks (attributes.foldl (markAttribute replacing) fields) nestedBlocks replacing)
  | _, proposed => proposed
termination_by structural block

def markNestedBlocks (fields : Fields) (nestedBlocks : List NestedBlock) (replacing : Bool) : Fields :=
  match nestedBlocks with
  | [] => fields
  | ⟨name, nesting, block, _, _⟩ :: rest =>
      let fields := match fields.get? name with
        | some value => (fields.erase name).insert name
            (walkNesting nesting (fun v => markComputedUnknown v block replacing) value)
        | none => fields
      markNestedBlocks fields rest replacing
termination_by structural nestedBlocks

end

/-- Plan a resource change. A null proposal is a destroy. -/
def plan (prior proposed : Value) (block : Block) : Plan :=
  if proposed.isNull then ⟨.null, []⟩
  else
    let requiresReplace := requiresReplace prior proposed block
    let replacing := !requiresReplace.isEmpty
    let planned := markComputedUnknown proposed block replacing
    ⟨WriteOnly.strip planned block, requiresReplace⟩

def getAtPath (value : Value) (steps : Path) : Option Value :=
  match steps, value with
  | [], value => some value
  | .attribute name :: rest, .object fields => (fields.get? name).bind (getAtPath · rest)
  | .index i :: rest, .list items | .index i :: rest, .set items =>
      if 0 ≤ i then items[i.toNat]?.bind (getAtPath · rest) else none
  | .key key :: rest, .map entries => (entries.get? key).bind (getAtPath · rest)
  | _, _ => none
termination_by structural steps

/-- Overwrite the value a path leads to. A step that does not resolve leaves
the value as it is. -/
def setAtPath (value : Value) (steps : Path) (leaf : Value) : Value :=
  match steps, value with
  | [], _ => leaf
  | .attribute name :: rest, .object fields =>
      .object (fields.modify name fun child => setAtPath child rest leaf)
  | .index i :: rest, .list items =>
      if 0 ≤ i then .list (items.modify i.toNat fun child => setAtPath child rest leaf) else .list items
  | .index i :: rest, .set items =>
      if 0 ≤ i then .set (items.modify i.toNat fun child => setAtPath child rest leaf) else .set items
  | .key key :: rest, .map entries =>
      .map (entries.modify key fun child => setAtPath child rest leaf)
  | _, value => value
termination_by structural steps

def keepPriorAt (prior planned : Value) (path : Path) : Value :=
  match getAtPath prior path with
  | some priorValue => setAtPath planned path priorValue
  | none => planned

def addReplace (paths : List AttributePath) (path : Path) : List AttributePath :=
  if paths.contains (toAttributePath path) then paths else paths ++ [toAttributePath path]

/-- Apply a handler's modifications to the mechanical plan: kept attributes
first, then unknown ones, then the replacement paths. -/
def applyModifications (plan : Plan) (mods : PlanModifications) (prior : Value) : Plan :=
  let kept := mods.keepPrior.foldl (keepPriorAt prior) plan.planned
  ⟨mods.unknown.foldl (fun planned path => setAtPath planned path .unknown) kept,
    mods.requireReplace.foldl addReplace plan.requiresReplace⟩

end TofuSdk
