import TofuSdk.PrivateState
import TofuSdk.Exposure
import TofuSdk.Identity

namespace TofuSdk

open ValueOf

namespace Service

/-- A resource has an identity by the marked fields of its model, or by some of
its own attributes. -/
inductive Declares (block : Block) (identity : IdentitySchema) : Prop
  | model {α : Type} (shape : Shape α) : shape.distinctNames = true → shape.blockFromShape = .ok block →
      shape.identityFromShape = .ok (some identity) → Declares block identity
  | attributes : block.ctyType.distinctNames = true → (identity.attributes.map (·.name)).Nodup →
      (∀ attr ∈ identity.attributes, ∃ attr' ∈ block.attributes, attr'.name = attr.name ∧ attr'.ty = attr.ty) →
      Declares block identity

structure Covers (block : Block) (identity : IdentitySchema) : Prop where
  distinctNames : block.ctyType.distinctNames = true
  names : (identity.attributes.map (·.name)).Nodup
  members : ∀ attr ∈ identity.attributes, ∃ attr' ∈ block.members, attr'.name = attr.name ∧ attr.ty.Agree attr'.ty

theorem Declares.covers {block : Block} {identity : IdentitySchema} (h : Declares block identity) :
    Covers block identity := by
  cases h with
  | model shape hd hblock hidentity =>
      obtain ⟨ty, hty, hagree⟩ := (Shape.agree_blockFromShape shape hd "").1 block hblock
      have hn := hagree.distinctNames ((Shape.reflects_mapType shape hty).distinctNames hd)
      have hnames := nodup_of_distinctNames (Shape.reflects_identity hd hidentity).2
      exact ⟨hn, hnames, Shape.identity_members hd hblock hidentity⟩
  | attributes hn hnames hall =>
      refine ⟨hn, hnames, ?_⟩
      intro attr ha
      obtain ⟨attr', ha', hname, hty⟩ := hall attr ha
      refine ⟨⟨attr'.name, attr'.ty, !attr'.required⟩, ?_, hname, hty ▸ .refl attr'.ty⟩
      exact List.mem_append_left _ (List.mem_map_of_mem ha')

namespace Rpc

def provider : Rpc → Provider
  | import_ provider _ | read provider _ | plan provider _ | apply provider _ | move provider _ => provider

def typeName : Rpc → String
  | import_ _ req => req.typeName
  | read _ req => req.typeName
  | plan _ req => req.typeName
  | apply _ req => req.typeName
  | move _ req => req.targetTypeName

section

variable (crates : Crates)

def identity : Rpc → Option ResourceIdentityData
  | import_ provider req => (importResourceState crates provider req).bind fun a =>
      a.response.importedResources.head?.bind (·.identity)
  | read provider req => (readResource crates provider req).bind (·.response.newIdentity)
  | plan provider req => (planResourceChange crates provider req).bind (·.response.plannedIdentity)
  | apply provider req => (applyResourceChange crates provider req).bind (·.response.newIdentity)
  | move provider req => (moveResourceState crates provider req).bind (·.response.targetIdentity)

/-- The value that stands behind the state of a reply, and whether the reply is
one that the service gives an identity. -/
def answered : Rpc → Option (Value × Bool)
  | import_ provider req => (provider.resourceHandler req.typeName).bind fun handler => do
      let dispatch ← run "import resource state" [] (handler.import_ req.id)
      let state ← dispatch.result.toOption
      pure (state, true)
  | read provider req => (provider.resourceHandler req.typeName).bind fun handler => do
      let block ← provider.resourceBlock req.typeName
      let current ← (decodeDynamic crates req.currentState block.ctyType).toOption
      let limit ← (Timeouts.forOperation current "read").toOption
      let dispatch ← run "read resource" req.private_ (Timeouts.bounded "read" limit (handler.read current))
      let new ← dispatch.result.toOption
      pure (WriteOnly.strip (new.getD .null) block, true)
  | plan provider req => do
      let block ← provider.resourceBlock req.typeName
      let prior ← (decodeDynamic crates req.priorState block.ctyType).toOption
      let proposed ← (decodeDynamic crates req.proposedNewState block.ctyType).toOption
      match provider.resourceHandler req.typeName with
      | none => pure ((TofuSdk.plan prior proposed block).planned, true)
      | some handler => do
          let base := TofuSdk.plan prior (keepPrior prior proposed handler.semanticEquality) block
          let dispatch ← run "modify_plan" req.plannedPrivate (handler.modifyPlan prior base.planned)
          let mods ← dispatch.result.toOption
          pure ((applyModifications base mods prior).planned, true)
  | apply provider req => (provider.resourceHandler req.typeName).bind fun handler => do
      let block ← provider.resourceBlock req.typeName
      let prior ← (decodeDynamic crates req.priorState block.ctyType).toOption
      let planned ← (decodeDynamic crates req.plannedState block.ctyType).toOption
      let planned ← (withConfig crates req.config block.ctyType block planned).toOption
      let limit ← (Timeouts.forOperation (if planned.isNull then prior else planned) (action planned prior)).toOption
      let dispatch ← dispatchApply handler planned prior limit req.plannedPrivate
      match dispatch.result with
      | .ok new => pure (WriteOnly.strip new block, true)
      | .error _ => pure (prior, false)
  | move provider req => (provider.resourceHandler req.targetTypeName).bind fun handler => do
      let raw ← req.sourceState.map (·.json)
      let json ← (crates.fromSlice raw).toOption
      let source ← (decodeJsonValue crates json).toOption
      let dispatch ← run "move resource state" req.sourcePrivate (handler.moveState req.sourceTypeName source)
      let target ← dispatch.result.toOption
      pure (target, false)

variable {crates}

theorem respondState_const {ρ β : Type} {value : Value} {ty : Ty} {private_ : Bytes} {outs : CtxOutputs}
    {build : Option DynamicValue → Bytes → List Diagnostic → ρ} {f : ρ → β} {b : β}
    (hf : ∀ state bytes diagnostics, f (build state bytes diagnostics) = b) :
    f (respondState crates value ty private_ outs build) = b := by
  rw [respondState]
  cases encodeDynamic crates value ty <;> exact hf _ _ _

variable (crates) in
structure Behind (rpc : Rpc) (block : Block) (state : Option DynamicValue) (v : Value) (identifies : Bool) : Prop where
  answered : rpc.answered crates = some (v, identifies)
  state : ∃ dv, state = some dv ∧ encodeDynamic crates v block.ctyType = .ok dv
  identity : rpc.identity crates =
    if identifies then (rpc.provider.resourceIdentity rpc.typeName).bind (knownIdentityData crates v) else none

variable {provider : Provider} {block : Block}

theorem behind_import {req : ImportRequest} {a : Answer ImportResponse}
    (hblock : provider.resourceBlock req.typeName = some block) (ha : importResourceState crates provider req = some a)
    (hstate : (a.response.importedResources.head?.bind (·.state)).isSome = true) :
    ∃ v identifies, Behind crates (import_ provider req) block (a.response.importedResources.head?.bind (·.state)) v
      identifies := by
  have hidentity : (import_ provider req).identity crates = a.response.importedResources.head?.bind (·.identity) := by
    rw [identity, ha, Option.bind_some]
  rw [importResourceState, Provider.resourceCty_eq hblock] at ha
  cases hhandler : provider.resourceHandler req.typeName with
  | none =>
      simp only [hhandler] at ha
      obtain rfl := Option.some.inj ha
      cases hstate
  | some handler =>
      simp only [hhandler] at ha
      obtain ⟨dispatch, hrun, rfl⟩ := Option.map_eq_some_iff.mp ha
      cases hresult : dispatch.result with
      | error diags => simp [answer, hresult] at hstate
      | ok v =>
          cases henc : encodeDynamic crates v block.ctyType with
          | error e => simp [answer, hresult, respondImported, henc] at hstate
          | ok dv =>
              simp only [answer, hresult, respondImported, henc, List.head?_cons, Option.bind_some] at hidentity
              refine ⟨v, true, ?_, ⟨dv, ?_, henc⟩, hidentity⟩
              · simp [answered, hhandler, hrun, hresult, Except.toOption]
              · simp [answer, hresult, respondImported, henc]

theorem behind_move {req : MoveRequest} {a : Answer MoveResponse}
    (hblock : provider.resourceBlock req.targetTypeName = some block)
    (ha : moveResourceState crates provider req = some a) (hstate : a.response.targetState.isSome = true) :
    ∃ v identifies, Behind crates (move provider req) block a.response.targetState v identifies := by
  have hidentity : (move provider req).identity crates = a.response.targetIdentity := by
    rw [identity, ha, Option.bind_some]
  rw [moveResourceState, Provider.resourceCty_eq hblock] at ha
  cases hhandler : provider.resourceHandler req.targetTypeName with
  | none =>
      simp only [hhandler] at ha
      obtain rfl := Option.some.inj ha
      cases hstate
  | some handler =>
      simp only [hhandler] at ha
      generalize hraw : req.sourceState.map (·.json) = raw at ha
      rcases raw with _ | _ | ⟨byte, bytes⟩
      · obtain rfl := Option.some.inj ha
        cases hstate
      · obtain rfl := Option.some.inj ha
        cases hstate
      · cases hjson : crates.fromSlice (byte :: bytes) with
        | error e =>
            simp only [hjson] at ha
            obtain rfl := Option.some.inj ha
            cases hstate
        | ok json =>
            cases hsource : decodeJsonValue crates json with
            | error e =>
                simp only [hjson, hsource] at ha
                obtain rfl := Option.some.inj ha
                cases hstate
            | ok source =>
                simp only [hjson, hsource] at ha
                obtain ⟨dispatch, hrun, rfl⟩ := Option.map_eq_some_iff.mp ha
                cases hresult : dispatch.result with
                | error diags => simp [answer, hresult] at hstate
                | ok v =>
                    cases henc : encodeDynamic crates v block.ctyType with
                    | error e => simp [answer, hresult, respondMoved, henc] at hstate
                    | ok dv =>
                        simp only [answer, hresult, respondMoved, henc] at hidentity
                        refine ⟨v, false, ?_, ⟨dv, ?_, henc⟩, hidentity⟩
                        · simp [answered, hhandler, hraw, hjson, hsource, hrun, hresult, Except.toOption]
                        · simp [answer, hresult, respondMoved, henc]

theorem behind_read {req : ReadRequest} {a : Answer ReadResponse}
    (hblock : provider.resourceBlock req.typeName = some block) (ha : readResource crates provider req = some a)
    (hstate : a.response.newState.isSome = true) :
    ∃ v identifies, Behind crates (read provider req) block a.response.newState v identifies := by
  have hidentity : (read provider req).identity crates = a.response.newIdentity := by
    rw [identity, ha, Option.bind_some]
  rw [readResource, Provider.resourceCty_eq hblock, hblock] at ha
  cases hhandler : provider.resourceHandler req.typeName with
  | none =>
      simp only [hhandler] at ha
      obtain rfl := Option.some.inj ha
      cases hstate
  | some handler =>
      cases hcurrent : decodeDynamic crates req.currentState block.ctyType with
      | error e =>
          simp only [hhandler, hcurrent] at ha
          obtain rfl := Option.some.inj ha
          cases hstate
      | ok current =>
          cases hlimit : Timeouts.forOperation current "read" with
          | error e => simp [hhandler, hcurrent, hlimit] at ha
          | ok limit =>
              simp only [hhandler, hcurrent, hlimit] at ha
              obtain ⟨dispatch, hrun, rfl⟩ := Option.map_eq_some_iff.mp ha
              cases hresult : dispatch.result with
              | error diags => simp [answer, hresult] at hstate
              | ok new =>
                  simp only [answer, hresult, respondRead] at hstate hidentity ⊢
                  rw [respondState_state (f := ReadResponse.newState) fun _ _ _ => rfl] at hstate ⊢
                  obtain ⟨dv, hdv⟩ := Option.isSome_iff_exists.mp hstate
                  refine ⟨_, true, ?_, ⟨dv, hdv, Outcome.toOption_eq_some.mp hdv⟩, hidentity.trans ?_⟩
                  · simp [answered, hhandler, hblock, hcurrent, hlimit, hrun, hresult, Except.toOption]
                  · exact respondState_const (f := ReadResponse.newIdentity) fun _ _ _ => rfl

theorem behind_apply {req : ApplyRequest} {a : Answer ApplyResponse}
    (hblock : provider.resourceBlock req.typeName = some block) (ha : applyResourceChange crates provider req = some a)
    (hstate : a.response.newState.isSome = true) :
    ∃ v identifies, Behind crates (apply provider req) block a.response.newState v identifies := by
  have hidentity : (apply provider req).identity crates = a.response.newIdentity := by
    rw [identity, ha, Option.bind_some]
  rw [applyResourceChange, Provider.resourceCty_eq hblock, hblock] at ha
  cases hhandler : provider.resourceHandler req.typeName with
  | none =>
      simp only [hhandler] at ha
      obtain rfl := Option.some.inj ha
      cases hstate
  | some handler =>
      cases hprior : decodeDynamic crates req.priorState block.ctyType with
      | error e =>
          simp only [hhandler, hprior] at ha
          obtain rfl := Option.some.inj ha
          cases hstate
      | ok prior =>
          cases hplanned : decodeDynamic crates req.plannedState block.ctyType with
          | error e =>
              simp only [hhandler, hprior, hplanned] at ha
              obtain rfl := Option.some.inj ha
              cases hstate
          | ok planned =>
              cases hmerged : withConfig crates req.config block.ctyType block planned with
              | error e =>
                  simp only [hhandler, hprior, hplanned, hmerged] at ha
                  obtain rfl := Option.some.inj ha
                  cases hstate
              | ok merged =>
                  simp only [hhandler, hprior, hplanned, hmerged, applyDecoded] at ha
                  cases hlimit : Timeouts.forOperation (if merged.isNull then prior else merged)
                      (action merged prior) with
                  | error e => simp [hlimit] at ha
                  | ok limit =>
                      simp only [hlimit] at ha
                      obtain ⟨dispatch, hrun, rfl⟩ := Option.map_eq_some_iff.mp ha
                      cases hresult : dispatch.result with
                      | error diags =>
                          simp only [answer, hresult, respondApply] at hstate hidentity ⊢
                          obtain ⟨dv, hdv⟩ := Option.isSome_iff_exists.mp hstate
                          refine ⟨prior, false, ?_, ⟨dv, hdv, Outcome.toOption_eq_some.mp hdv⟩, hidentity⟩
                          simp [answered, hhandler, hblock, hprior, hplanned, hmerged, hlimit, hrun, hresult,
                            Except.toOption]
                      | ok new =>
                          simp only [answer, hresult, respondApply] at hstate hidentity ⊢
                          rw [respondState_state (f := ApplyResponse.newState) fun _ _ _ => rfl] at hstate ⊢
                          obtain ⟨dv, hdv⟩ := Option.isSome_iff_exists.mp hstate
                          refine ⟨_, true, ?_, ⟨dv, hdv, Outcome.toOption_eq_some.mp hdv⟩, hidentity.trans ?_⟩
                          · simp [answered, hhandler, hblock, hprior, hplanned, hmerged, hlimit, hrun, hresult,
                              Except.toOption]
                          · exact respondState_const (f := ApplyResponse.newIdentity) fun _ _ _ => rfl

theorem behind_plan {req : PlanRequest} {a : Answer PlanResponse}
    (hblock : provider.resourceBlock req.typeName = some block) (ha : planResourceChange crates provider req = some a)
    (hstate : a.response.plannedState.isSome = true) :
    ∃ v identifies, Behind crates (plan provider req) block a.response.plannedState v identifies := by
  have hidentity : (plan provider req).identity crates = a.response.plannedIdentity := by
    rw [identity, ha, Option.bind_some]
  have hrespond : ∀ {base bytes warnings}, a.response =
      respondPlan crates provider req block.ctyType base bytes warnings →
      ∃ dv, a.response.plannedState = some dv ∧ encodeDynamic crates base.planned block.ctyType = .ok dv ∧
        a.response.plannedIdentity = (provider.resourceIdentity req.typeName).bind
            (knownIdentityData crates base.planned) := by
    intro base bytes warnings hresponse
    rw [respondPlan] at hresponse
    cases henc : encodeDynamic crates base.planned block.ctyType with
    | error e =>
        rw [henc] at hresponse
        rw [hresponse] at hstate
        cases hstate
    | ok dv =>
        rw [henc] at hresponse
        exact ⟨dv, by rw [hresponse], rfl, by rw [hresponse]⟩
  rw [planResourceChange, Provider.resourceCty_eq hblock, hblock] at ha
  cases hprior : decodeDynamic crates req.priorState block.ctyType with
  | error e =>
      simp only [hprior] at ha
      obtain rfl := Option.some.inj ha
      cases hstate
  | ok prior =>
      cases hproposed : decodeDynamic crates req.proposedNewState block.ctyType with
      | error e =>
          simp only [hprior, hproposed] at ha
          obtain rfl := Option.some.inj ha
          cases hstate
      | ok proposed =>
          simp only [hprior, hproposed, planDecoded] at ha
          cases hhandler : provider.resourceHandler req.typeName with
          | none =>
              simp only [hhandler] at ha
              obtain ⟨dv, hdv, henc, hident⟩ := hrespond (congrArg Answer.response (Option.some.inj ha)).symm
              refine ⟨_, true, ?_, ⟨dv, hdv, henc⟩, hidentity.trans hident⟩
              simp [answered, hblock, hprior, hproposed, hhandler, Except.toOption]
          | some handler =>
              simp only [hhandler] at ha
              obtain ⟨dispatch, hrun, hanswer⟩ := Option.map_eq_some_iff.mp ha
              cases hresult : dispatch.result with
              | error diags =>
                  simp only [hresult] at hanswer
                  rw [← hanswer] at hstate
                  cases hstate
              | ok mods =>
                  simp only [hresult] at hanswer
                  obtain ⟨dv, hdv, henc, hident⟩ := hrespond (congrArg Answer.response hanswer).symm
                  refine ⟨_, true, ?_, ⟨dv, hdv, henc⟩, hidentity.trans hident⟩
                  simp [answered, hblock, hprior, hproposed, hhandler, hrun, hresult, Except.toOption]

theorem behind {rpc : Rpc} {reply : Reply} (hblock : rpc.provider.resourceBlock rpc.typeName = some block)
    (hreply : rpc.reply crates = some reply) (hok : reply.successful = true) :
    ∃ v identifies, Behind crates rpc block reply.state v identifies := by
  have hstate : reply.state.isSome = true := (Bool.and_eq_true _ _ ▸ hok).1
  cases rpc with
  | import_ provider req =>
      obtain ⟨a, ha, rfl⟩ := Option.map_eq_some_iff.mp hreply
      exact behind_import hblock ha hstate
  | read provider req =>
      obtain ⟨a, ha, rfl⟩ := Option.map_eq_some_iff.mp hreply
      exact behind_read hblock ha hstate
  | plan provider req =>
      obtain ⟨a, ha, rfl⟩ := Option.map_eq_some_iff.mp hreply
      exact behind_plan hblock ha hstate
  | apply provider req =>
      obtain ⟨a, ha, rfl⟩ := Option.map_eq_some_iff.mp hreply
      exact behind_apply hblock ha hstate
  | move provider req =>
      obtain ⟨a, ha, rfl⟩ := Option.map_eq_some_iff.mp hreply
      exact behind_move hblock ha hstate

end

end Rpc

section

variable {crates : Crates} {block : Block} {identity : IdentitySchema}

/-- An object that goes out under the type of its block comes back with the
same identity attributes, and so does what is taken of it as its identity. -/
theorem encoded_object (hc : crates.Lawful) (ht : crates.ReadsTypes) (hcovers : Covers block identity) {fields : Fields}
    {dv : DynamicValue} (henc : encodeDynamic crates (.object fields) block.ctyType = .ok dv) :
    ∃ stored, decodeDynamic crates (some dv) block.ctyType = .ok (.object stored) ∧
      (∀ attr ∈ identity.attributes,
        ReadsAs attr.ty ((fields.get? attr.name).getD .null) ((stored.get? attr.name).getD .null)) ∧
      ∃ data, encodeDynamic crates (.object fields) identity.ctyType = .ok data ∧
        decodeDynamic crates (some data) identity.ctyType = .ok (.object (identity.project stored)) := by
  obtain ⟨mp, hmp, -, hdecode⟩ := decodeDynamic_of_encodeDynamic hc henc
  have hn := hcovers.distinctNames
  rw [Block.ctyType_eq_members] at hmp hn
  obtain ⟨hnodup, hmembers⟩ := Ty.distinctNames_object.mp hn
  obtain ⟨w, hw, hattrs⟩ := Readable.attributes (fun _ v _ => readable ht v) hn hmp
  have hattr : ∀ attr ∈ identity.attributes, ∃ mp v, toMp crates ((fields.get? attr.name).getD .null) attr.ty = .ok mp ∧
      fromMp crates mp attr.ty = .ok v ∧ ReadsAs attr.ty ((fields.get? attr.name).getD .null) v ∧
        (OrdMap.ofList (block.members.map fun attr => (attr.name, w attr))).get? attr.name = some v := by
    intro attr ha
    obtain ⟨member, hmember, hname, hagree⟩ := hcovers.members attr ha
    obtain ⟨-, mp', hmp', hread⟩ := hattrs member hmember
    rw [hname] at hmp'
    have hty := hmembers member hmember
    obtain ⟨v, hv, hreads⟩ := readable ht _ attr.ty mp' (hagree.symm.distinctNames hty) (hagree.symm.toMp hmp')
    obtain rfl : w member = v := Except.ok.inj ((hagree.symm.fromMp hty hread).symm.trans hv)
    refine ⟨mp', w member, hagree.symm.toMp hmp', hv, hreads, ?_⟩
    rw [← hname]
    exact OrdMap.get?_ofList_map hnodup w hmember
  refine ⟨_, (hdecode block.ctyType).trans (Block.ctyType_eq_members block ▸ hw), ?_, ?_⟩
  · intro attr ha
    obtain ⟨-, v, -, -, hreads, hget⟩ := hattr attr ha
    rwa [hget, Option.getD_some]
  · generalize OrdMap.ofList (block.members.map fun attr => (attr.name, w attr)) = stored at hattr ⊢
    have hnames : ((identity.attributes.map fun attr => (⟨attr.name, attr.ty, false⟩ : ObjectAttr)).map
        (·.name)).Nodup := by
      rw [List.map_map]
      exact hcovers.names
    have hread : ∀ attr ∈ identity.attributes.map fun attr => (⟨attr.name, attr.ty, false⟩ : ObjectAttr), ∃ mp,
        toMp crates ((fields.get? attr.name).getD .null) attr.ty = .ok mp ∧
          fromMp crates mp attr.ty = .ok ((stored.get? attr.name).getD .null) := by
      rw [List.forall_mem_map]
      intro attr ha
      obtain ⟨mp, v, hmp, hv, -, hget⟩ := hattr attr ha
      rw [hget]
      exact ⟨mp, hmp, hv⟩
    obtain ⟨mp, hmp, hw⟩ := decodeObject_encodeObject hnames hread
    rw [List.map_map] at hw
    obtain ⟨bytes, hwrite⟩ := hc.write mp
    refine ⟨⟨bytes, []⟩, ?_, (decodeDynamic_of_write hc hwrite [] _).trans hw⟩
    rw [encodeDynamic, encodeMsgpack, IdentitySchema.ctyType, hmp, Outcome.ok_bind, hwrite]
    rfl

/-- Is every identity attribute of a state present, set and wholly known? -/
def Identified (identity : IdentitySchema) (state : Value) : Prop :=
  ∃ fields, state = .object fields ∧ ∀ attr ∈ identity.attributes,
    isSet fields attr.name = true ∧ Value.isWhollyKnown ((fields.get? attr.name).getD .null) = true

/-- Is every identity attribute of a value set? -/
def Keyed (identity : IdentitySchema) (v : Value) : Prop :=
  ∃ fields, v = .object fields ∧ ∀ attr ∈ identity.attributes, isSet fields attr.name = true

/-- Is there an unknown within an identity attribute? -/
def Unsettled (identity : IdentitySchema) (v : Value) : Prop :=
  ∃ fields, v = .object fields ∧ ∃ attr ∈ identity.attributes,
    UnknownUnder attr.ty ((fields.get? attr.name).getD .null)

theorem keyed_object {fields : Fields} :
    Keyed identity (.object fields) ↔ ∀ attr ∈ identity.attributes, isSet fields attr.name = true := by
  simp [Keyed]

theorem unsettled_object {fields : Fields} : Unsettled identity (.object fields) ↔
    ∃ attr ∈ identity.attributes, UnknownUnder attr.ty ((fields.get? attr.name).getD .null) := by
  simp [Unsettled]

theorem identified_object {fields stored : Fields} (hreads : ∀ attr ∈ identity.attributes,
    ReadsAs attr.ty ((fields.get? attr.name).getD .null) ((stored.get? attr.name).getD .null)) :
    Identified identity (.object stored) ↔ Keyed identity (.object fields) ∧ ¬Unsettled identity (.object fields) := by
  have hset : ∀ attr ∈ identity.attributes, isSet stored attr.name = true ↔ isSet fields attr.name = true := by
    intro attr ha
    rw [isSet_iff, isSet_iff, ne_eq, ne_eq, (hreads attr ha).null, (hreads attr ha).unknown]
  rw [keyed_object, unsettled_object]
  constructor
  · rintro ⟨fields', heq, hall⟩
    obtain rfl := ValueOf.object.inj heq
    refine ⟨fun attr ha => (hset attr ha).mp (hall attr ha).1, ?_⟩
    rintro ⟨attr, ha, hunknown⟩
    exact (hreads attr ha).known.mp (hall attr ha).2 hunknown
  · rintro ⟨hkeyed, hsettled⟩
    refine ⟨stored, rfl, fun attr ha => ⟨(hset attr ha).mpr (hkeyed attr ha), ?_⟩⟩
    exact (hreads attr ha).known.mpr fun hunknown => hsettled ⟨attr, ha, hunknown⟩

theorem encoded_other (hc : crates.Lawful) {v : Value} {dv : DynamicValue}
    (henc : encodeDynamic crates v block.ctyType = .ok dv) (hv : ∀ fields, v ≠ .object fields) :
    ∃ state, decodeDynamic crates (some dv) block.ctyType = .ok state ∧ ∀ fields, state ≠ .object fields := by
  obtain ⟨mp, hmp, -, hdecode⟩ := decodeDynamic_of_encodeDynamic hc henc
  rw [hdecode]
  rw [Block.ctyType_eq_members] at hmp
  cases v with
  | null =>
      obtain rfl := Except.ok.inj hmp
      exact ⟨.null, rfl, by simp⟩
  | unknown =>
      obtain rfl := Except.ok.inj hmp
      exact ⟨.unknown, rfl, by simp⟩
  | object fields => exact absurd rfl (hv fields)
  | _ => cases hmp

/-- The state of a reply comes with an identity exactly when it has one, and
with its own. -/
def Accompanied (crates : Crates) (rpc : Rpc) (block : Block) (identity : IdentitySchema) (reply : Reply) : Prop :=
  ∃ state, decodeDynamic crates reply.state block.ctyType = .ok state ∧
    ((rpc.identity crates).isSome = true ↔ Identified identity state) ∧
    ∀ data, rpc.identity crates = some data → ∃ fields, state = .object fields ∧
      decodeDynamic crates data.identityData identity.ctyType = .ok (.object (identity.project fields))

/-- A reply identifies the value behind it exactly when that is settled, if its
identity attributes are set. -/
def Rpc.Settles (crates : Crates) (rpc : Rpc) (identity : IdentitySchema) : Prop :=
  ∀ v identifies, rpc.answered crates = some (v, identifies) → Keyed identity v →
    (identifies = true ↔ ¬Unsettled identity v)

/-- A successful call gives an identity with exactly the states that have one,
if and only if none is given to a state with an unknown in it, and none is
left out by a move or a failing apply. -/
theorem accompanied_iff (hc : crates.Lawful) (ht : crates.ReadsTypes) {rpc : Rpc} {reply : Reply}
    (hblock : rpc.provider.resourceBlock rpc.typeName = some block)
    (hidentity : rpc.provider.resourceIdentity rpc.typeName = some identity) (hdeclares : Declares block identity)
    (hreply : rpc.reply crates = some reply) (hok : reply.successful = true) :
    Accompanied crates rpc block identity reply ↔ rpc.Settles crates identity := by
  obtain ⟨v, identifies, hanswered, ⟨dv, hdv, henc⟩, hslot⟩ := Rpc.behind hblock hreply hok
  have hsettles : rpc.Settles crates identity ↔ (Keyed identity v → (identifies = true ↔ ¬Unsettled identity v)) := by
    constructor
    · exact fun h => h v identifies hanswered
    · intro h v' identifies' h'
      obtain ⟨rfl, rfl⟩ := Prod.mk.inj (Option.some.inj (hanswered.symm.trans h'))
      exact h
  rw [hidentity, Option.bind_some] at hslot
  rw [hsettles, Accompanied, hdv, hslot]
  by_cases hv : ∃ fields, v = .object fields
  · obtain ⟨fields, rfl⟩ := hv
    obtain ⟨stored, hstored, hreads, data, hdata, hproject⟩ := encoded_object hc ht hdeclares.covers henc
    have hidentified := identified_object hreads
    have hknown : knownIdentityData crates (.object fields) identity =
        if identity.attributes.all fun attr => isSet fields attr.name then some ⟨some data⟩ else none := by
      rw [knownIdentityData_eq hdeclares.covers.names, hdata]
      rfl
    rw [hstored]
    by_cases hkeyed : Keyed identity (.object fields)
    · rw [if_pos (List.all_eq_true.mpr (keyed_object.mp hkeyed))] at hknown
      cases identifies <;> simp [hknown, hkeyed, hidentified, hproject]
    · have hall : ¬(identity.attributes.all fun attr => isSet fields attr.name) = true := by
        rw [List.all_eq_true, ← keyed_object]
        exact hkeyed
      rw [if_neg hall] at hknown
      simp [hknown, hkeyed, hidentified]
  · have hother : ∀ fields, v ≠ .object fields := fun fields h => hv ⟨fields, h⟩
    obtain ⟨state, hstate, hne⟩ := encoded_other hc henc hother
    have hknown : knownIdentityData crates v identity = none := by
      cases v with
      | object fields => exact absurd rfl (hother fields)
      | _ => rfl
    have hkeyed : ¬Keyed identity v := fun ⟨fields, h, _⟩ => hother fields h
    have hidentified : ¬Identified identity state := fun ⟨fields, h, _⟩ => hne fields h
    rw [hknown, ite_self]
    refine iff_of_true ⟨state, hstate, iff_of_false (by simp) hidentified, by simp⟩ fun h => absurd h hkeyed

end

def unlabelled : Value := .list [.unknown]

def unlabelledMp : Mp := .map [(.string (.text "content"), .array [.ext 0 [0]])]

def unlabelledState : DynamicValue := ⟨MessagePack.write unlabelledMp, []⟩

def fillRequest : PlanRequest where
  typeName := "jar"
  priorState := none
  proposedNewState := some unlabelledState
  priorPrivate := []
  plannedPrivate := []

def fillJar : Rpc := .plan (labelledProvider (.list .string)) fillRequest

theorem encodeDynamic_unlabelled (optional : Bool) :
    encodeDynamic Crates.real (jar unlabelled) (.object [⟨"content", .list .string, optional⟩]) =
        .ok unlabelledState := by
  have hsorted : sortedByName [⟨"content", Ty.list .string, optional⟩] = [⟨"content", .list .string, optional⟩] := by
    simp [sortedByName]
  have hmp : toMp Crates.real (jar unlabelled) (.object [⟨"content", .list .string, optional⟩]) = .ok unlabelledMp := by
    change encodeObject Crates.real (OrdMap.empty.insert "content" unlabelled)
      [⟨"content", .list .string, optional⟩] = _
    rw [encodeObject_eq, hsorted]
    rfl
  rw [encodeDynamic, encodeMsgpack, hmp]
  rfl

theorem decodeDynamic_unlabelled : decodeDynamic Crates.real (some unlabelledState) (jarBlock (.list .string)).ctyType =
    .ok (jar unlabelled) := by
  rw [unlabelledState, decodeDynamic_of_write Crates.real_lawful rfl]
  rfl

theorem knownIdentityData_unlabelled :
    knownIdentityData Crates.real (jar unlabelled) (label (.list .string)) = some ⟨some unlabelledState⟩ := by
  have hset : ((label (.list .string)).attributes.all fun attr =>
      isSet (OrdMap.empty.insert "content" unlabelled) attr.name) = true := rfl
  have hnames : ((label (.list .string)).attributes.map (·.name)).Nodup := List.nodup_singleton "content"
  rw [jar, knownIdentityData_eq hnames, if_pos hset]
  exact congrArg (fun dv => dv.toOption.map fun dv => ResourceIdentityData.mk (some dv))
    (encodeDynamic_unlabelled false)

theorem planned_fillJar : planResourceChange Crates.real (labelledProvider (.list .string)) fillRequest =
    some ⟨{ plannedState := some unlabelledState, plannedIdentity := some ⟨some unlabelledState⟩ }, none⟩ := by
  have hty : (labelledProvider (.list .string)).resourceCty "jar" = some (jarBlock (.list .string)).ctyType := rfl
  have hblock : (labelledProvider (.list .string)).resourceBlock "jar" = some (jarBlock (.list .string)) := rfl
  have hhandler : (labelledProvider (.list .string)).resourceHandler "jar" = none := rfl
  have hidentity : (labelledProvider (.list .string)).resourceIdentity "jar" = some (label (.list .string)) := rfl
  have hprior : decodeDynamic Crates.real none (jarBlock (.list .string)).ctyType = .ok .null := rfl
  have hplan : plan .null (jar unlabelled) (jarBlock (.list .string)) = ⟨jar unlabelled, []⟩ := rfl
  have henc : encodeDynamic Crates.real (jar unlabelled) (jarBlock (.list .string)).ctyType = .ok unlabelledState :=
    encodeDynamic_unlabelled true
  simp only [planResourceChange, planDecoded, fillRequest, hty, hblock, hhandler, hprior, decodeDynamic_unlabelled,
    hplan, refuse,
    respondPlan, henc, hidentity, Option.bind_some, knownIdentityData_unlabelled]
  rfl

theorem reply_fillJar : fillJar.reply Crates.real = some ⟨some unlabelledState, [], [], none⟩ := by
  rw [fillJar, Rpc.reply, planned_fillJar]
  rfl

theorem declares_label (ty : Ty) (hn : ty.distinctNames = true) : Declares (jarBlock ty) (label ty) := by
  apply Declares.attributes
  · rw [Block.ctyType_eq_members, Ty.distinctNames_object]
    exact ⟨List.nodup_singleton "content", List.forall_mem_singleton.mpr hn⟩
  · exact List.nodup_singleton "content"
  · intro attr ha
    obtain rfl := List.mem_singleton.mp ha
    exact ⟨_, List.mem_singleton_self _, rfl, rfl⟩

/-- A plan gives an identity to a state of which the identity is not known yet. -/
theorem unlabelled_identified : Declares (jarBlock (.list .string)) (label (.list .string)) ∧
    fillJar.reply Crates.real = some ⟨some unlabelledState, [], [], none⟩ ∧
    ¬Accompanied Crates.real fillJar (jarBlock (.list .string))
        (label (.list .string)) ⟨some unlabelledState, [], [], none⟩ := by
  refine ⟨declares_label _ rfl, reply_fillJar, ?_⟩
  rintro ⟨state, hstate, hiff, -⟩
  obtain rfl := Except.ok.inj (decodeDynamic_unlabelled.symm.trans hstate)
  have hidentity : fillJar.identity Crates.real = some ⟨some unlabelledState⟩ := by
    rw [fillJar, Rpc.identity, planned_fillJar, Option.bind_some]
  rw [hidentity] at hiff
  obtain ⟨fields, heq, hall⟩ := hiff.mp rfl
  obtain rfl := ValueOf.object.inj heq
  have hknown := (hall _ (List.mem_singleton_self _)).2
  cases hknown

theorem accompanied_fillJar :
    Accompanied Crates.real fillJar (jarBlock (.list .string))
      (label (.list .string)) ⟨some unlabelledState, [], [], none⟩ ↔
      fillJar.Settles Crates.real (label (.list .string)) :=
  accompanied_iff Crates.real_lawful Crates.real_readsTypes rfl rfl (declares_label _ rfl) reply_fillJar rfl

end Service

end TofuSdk
