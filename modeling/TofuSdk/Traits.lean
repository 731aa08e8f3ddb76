import TofuSdk.Handler
import TofuSdk.Panic

namespace TofuSdk

namespace Plugin

/-- What the code of a provider's author comes to. It panics with a message
when the payload is a string. -/
abbrev Authored := Ending (Option String)

structure Canon where
  fields : OrdMap String (Value → Authored Value)
  blocks : OrdMap String Canon

namespace Canon

def isEmpty (canon : Canon) : Bool := canon.fields.keys.isEmpty && canon.blocks.keys.isEmpty

mutual

def ofCanon (canon : TofuSdk.Canon) : Canon :=
  match canon with
  | ⟨fields, blocks⟩ => ⟨fields.map fun canonicalize value => pure (canonicalize.apply value), ofBlocks blocks⟩
termination_by structural canon

def ofBlocks (blocks : OrdMap String TofuSdk.Canon) : OrdMap String Canon :=
  match blocks with
  | ⟨keys, sorted, val⟩ => ⟨keys, sorted, fun i => ofCanon (val i)⟩
termination_by structural blocks

end

end Canon

def keepField (priorFields fields : Fields) (name : String) (canonicalize : Value → Authored Value) :
    Authored Fields :=
  match priorFields.get? name, fields.get? name with
  | some priorValue, some proposedValue => do
      let prior ← canonicalize priorValue
      let proposed ← canonicalize proposedValue
      pure (if prior.eq proposed then fields.insert name priorValue else fields)
  | _, _ => pure fields

mutual

def keepPrior (prior proposed : Value) (canon : Canon) : Authored Value :=
  match canon with
  | ⟨fields, blocks⟩ =>
      if fields.keys.isEmpty && blocks.keys.isEmpty then pure proposed
      else match prior, proposed with
        | .object priorFields, .object proposedFields => do
            let kept ← fields.toList.foldlM
              (fun kept entry => keepField priorFields kept entry.1 entry.2) proposedFields
            let kept ← keepBlocks priorFields kept blocks
            pure (.object kept)
        | _, proposed => pure proposed
termination_by structural canon

def keepBlocks (priorFields proposedFields : Fields) (blocks : OrdMap String Canon) : Authored Fields :=
  match blocks with
  | ⟨keys, _, val⟩ =>
      (List.finRange keys.length).foldlM (fun kept i =>
        match priorFields.get? (keys.get i), kept.get? (keys.get i) with
        | some priorBlock, some proposedBlock => do
            let block ← keepPrior priorBlock proposedBlock (val i)
            pure (kept.insert (keys.get i) block)
        | _, _ => pure kept) proposedFields
termination_by structural blocks

end

structure Validation where
  ops : List CtxOp
  ending : Authored Diagnostics

abbrev Validator := Value → Bytes → Validation

def Validator.clean : Validator := fun _ _ => ⟨[], .returned []⟩

structure DynResource where
  create (planned : Value) : Handler Value
  read (current : Value) : Handler (Option Value)
  update (planned prior : Value) : Handler Value
  delete (prior : Value) : Handler Unit
  import_ (id : String) : Handler Value
  upgrade (fromVersion : Int) (prior : Value) : Handler Value
  validate : Validator
  modifyPlan (prior proposed : Value) : Handler PlanModifications
  moveState (sourceTypeName : String) (sourceState : Value) : Handler Value
  semanticEquality : Authored Canon

structure DynDataSource where
  read (config : Value) : Handler Value
  validate : Validator

structure DynEphemeral where
  open_ (config : Value) : Handler Value
  renew : Handler Unit
  close : Handler Unit
  validate : Validator

structure DynListResource where
  list (config : Value) : Handler (List DynListItem)
  validate : Validator

structure DynStateBackend where
  readState (stateId : String) : Handler Bytes
  writeState (stateId : String) (data : Bytes) : Handler Unit
  lock (stateId operation : String) : Handler String
  unlock (stateId lockId : String) : Handler Unit
  states : Handler (List String)
  deleteState (stateId : String) : Handler Unit

structure DynStateStore where
  validate : Validator
  configure (config : Value) : Handler DynStateBackend

structure DynAction where
  validate : Validator
  plan (config : Value) : Handler Unit
  invoke (config : Value) : Handler Unit

structure FunctionError where
  text : String
  argument : Option Int

structure DynFunction where
  call (args : List Value) : Authored (Except FunctionError Value)

def DynResource.ofResource (resource : TofuSdk.DynResource) (validate : Validator) : DynResource where
  create := resource.create
  read := resource.read
  update := resource.update
  delete := resource.delete
  import_ := resource.import_
  upgrade := resource.upgrade
  validate := validate
  modifyPlan := resource.modifyPlan
  moveState := resource.moveState
  semanticEquality := pure (Canon.ofCanon resource.semanticEquality)

def DynListResource.ofListResource (resource : TofuSdk.DynListResource) (validate : Validator) :
    DynListResource where
  list := resource.list
  validate := validate

theorem keepField_pure (priorFields fields : Fields) (name : String) (canonicalize : Canonicalizer) :
    keepField priorFields fields name (fun value => pure (canonicalize.apply value)) =
      pure (TofuSdk.keepField priorFields fields name canonicalize) := by
  rw [keepField, TofuSdk.keepField]
  cases priorFields.get? name with
  | none => rfl
  | some priorValue =>
      cases fields.get? name with
      | none => rfl
      | some proposedValue => simp

theorem keepPrior_ofCanon (canon : TofuSdk.Canon) (prior proposed : Value) :
    keepPrior prior proposed (Canon.ofCanon canon) = pure (TofuSdk.keepPrior prior proposed canon) := by
  induction canon using TofuSdk.Canon.induct generalizing prior proposed with
  | mk fields blocks ih =>
      obtain ⟨keys, sorted, val⟩ := blocks
      have hfields : ∀ priorFields proposedFields : Fields,
          (fields.map fun canonicalize value => (pure (canonicalize.apply value) : Authored Value)).toList.foldlM
              (fun kept entry => keepField priorFields kept entry.1 entry.2) proposedFields =
            pure (fields.toList.foldl (fun kept entry => TofuSdk.keepField priorFields kept entry.1 entry.2)
              proposedFields) := by
        intro priorFields proposedFields
        rw [OrdMap.toList_map, List.foldlM_map]
        simp only [keepField_pure, List.foldlM_pure]
      have hblocks : ∀ priorFields kept : Fields,
          keepBlocks priorFields kept (Canon.ofBlocks ⟨keys, sorted, val⟩) =
            pure (TofuSdk.keepBlocks priorFields kept ⟨keys, sorted, val⟩) := by
        intro priorFields kept
        rw [Canon.ofBlocks, keepBlocks, TofuSdk.keepBlocks, ← List.foldlM_pure]
        congr 1
        funext kept i
        cases priorFields.get? (keys.get i) with
        | none => rfl
        | some priorBlock =>
            cases hblock : kept.get? (keys.get i) with
            | none => simp only [OrdMap.modify_of_get?_eq_none kept hblock]
            | some proposedBlock =>
                have hval := ih (keys.get i) (val i) (OrdMap.val_mem ⟨keys, sorted, val⟩ i)
                simp only [hval, pure_bind]
                rw [← OrdMap.insert_eq_modify kept hblock]
      rcases Value.objects_or_not prior proposed with ⟨priorFields, proposedFields, rfl, rfl⟩ | hnot
      · by_cases hempty : (fields.keys.isEmpty && keys.isEmpty) = true
        · rw [Canon.ofCanon, Canon.ofBlocks, keepPrior, TofuSdk.keepPrior, if_pos hempty]
          exact if_pos hempty
        · rw [Canon.ofCanon, keepPrior, TofuSdk.keepPrior, if_neg hempty]
          simp only [hfields, hblocks, pure_bind]
          exact if_neg hempty
      · rw [TofuSdk.keepPrior_of_not_object _ hnot, Canon.ofCanon, keepPrior]
        · exact ite_self _
        · exact hnot

end Plugin

end TofuSdk
