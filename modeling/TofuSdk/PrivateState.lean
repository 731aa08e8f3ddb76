import TofuSdk.Failure
import TofuSdk.Run

namespace TofuSdk

namespace Service

/-- A resource call that core makes, with the provider as it behaves then. -/
inductive Rpc
  | import_ (provider : Provider) (req : ImportRequest)
  | read (provider : Provider) (req : ReadRequest)
  | plan (provider : Provider) (req : PlanRequest)
  | apply (provider : Provider) (req : ApplyRequest)
  | move (provider : Provider) (req : MoveRequest)

/-- What core looks at in a reply, whichever call it answers. -/
structure Reply where
  state : Option DynamicValue
  private_ : Bytes
  diagnostics : List Diagnostic
  call : Option CtxCall

def Reply.successful (reply : Reply) : Bool := reply.state.isSome && !hasError reply.diagnostics

namespace Rpc

def reply (crates : Crates) : Rpc → Option Reply
  | import_ provider req => (importResourceState crates provider req).map fun a =>
      ⟨a.response.importedResources.head?.bind (·.state),
        (a.response.importedResources.head?.map (·.private_)).getD [], a.response.diagnostics, a.call⟩
  | read provider req => (readResource crates provider req).map fun a =>
      ⟨a.response.newState, a.response.private_, a.response.diagnostics, a.call⟩
  | plan provider req => (planResourceChange crates provider req).map fun a =>
      ⟨a.response.plannedState, a.response.plannedPrivate, a.response.diagnostics, a.call⟩
  | apply provider req => (applyResourceChange crates provider req).map fun a =>
      ⟨a.response.newState, a.response.private_, a.response.diagnostics, a.call⟩
  | move provider req => (moveResourceState crates provider req).map fun a =>
      ⟨a.response.targetState, a.response.targetPrivate, a.response.diagnostics, a.call⟩

end Rpc

/-- The private bytes that core holds for a resource: those stored, and those
of a plan that is still to be applied. -/
structure Core where
  stored : Bytes
  planned : Option Bytes

namespace Core

def sent (core : Core) : Rpc → Bytes
  | .import_ _ _ => []
  | .apply _ _ => core.planned.getD []
  | _ => core.stored

/-- Does a request carry the bytes of the core that makes it? An apply follows
a plan. -/
def Sends (core : Core) : Rpc → Prop
  | .import_ _ _ => True
  | .read _ req => req.private_ = core.stored
  | .plan _ req => req.priorPrivate = core.stored
  | .apply _ req => core.planned = some req.plannedPrivate
  | .move _ req => req.sourcePrivate = core.stored

/-- A plan is kept beside the stored bytes. Any other call stores its bytes,
and what was planned for the state before is void. -/
def next (core : Core) (rpc : Rpc) (private_ : Bytes) : Core :=
  match rpc with
  | .plan _ _ => { core with planned := some private_ }
  | _ => ⟨private_, none⟩

end Core

inductive Step (crates : Crates) : Core → Rpc → Core → Prop
  | mk (core : Core) (rpc : Rpc) (reply : Reply) (hsends : core.Sends rpc)
      (hreply : rpc.reply crates = some reply) (hok : reply.successful = true) :
      Step crates core rpc (core.next rpc reply.private_)

section

variable (crates : Crates) (provider : Provider)

/-- The bytes of a reply are those the handler last set, or else those sent,
and these are what the handler was shown. -/
def Threaded (core : Core) (rpc : Rpc) : Prop :=
  ∀ reply, rpc.reply crates = some reply → reply.private_ = keptPrivate reply.call (core.sent rpc) ∧
    ∀ call, reply.call = some call → call.privateIn = core.sent rpc

/-- A plan is sent the stored bytes in the field that the service reads, the
handler of an import sets no bytes, and one that fails to apply without
reporting it leaves none. -/
def Threads (core : Core) (rpc : Rpc) : Prop :=
  match rpc with
  | .plan _ req => req.plannedPrivate = core.stored
  | .import_ _ _ => ∀ reply, rpc.reply crates = some reply → keptPrivate reply.call [] = []
  | .apply _ req => ∀ reply call, rpc.reply crates = some reply → reply.call = some call →
      call.returned = true ∨ keptPrivate reply.call req.plannedPrivate = []
  | _ => True

variable {crates provider}

theorem run_eq_some {α : Type} {op : String} {privateIn : Bytes} {handler : Handler α} {dispatch : Dispatch α}
    (h : run op privateIn handler = some dispatch) : dispatch.privateIn = privateIn := by
  obtain ⟨result, -, rfl⟩ := Option.map_eq_some_iff.mp h
  rfl

theorem respondState_private {ρ : Type} {value : Value} {ty : Ty} {private_ : Bytes} {outs : CtxOutputs}
    {build : Option DynamicValue → Bytes → List Diagnostic → ρ} {f : ρ → Bytes}
    (hf : ∀ state bytes diagnostics, f (build state bytes diagnostics) = bytes) :
    f (respondState crates value ty private_ outs build) = outs.privateOut.getD private_ := by
  rw [respondState]
  cases encodeDynamic crates value ty <;> exact hf _ _ _

theorem readResource_private {req : ReadRequest} {a : Answer ReadResponse}
    (h : readResource crates provider req = some a) (hstate : a.response.newState.isSome = true) :
    a.response.private_ = keptPrivate a.call req.private_ ∧
      ∀ call, a.call = some call → call.privateIn = req.private_ := by
  rw [readResource] at h
  split at h
  · split at h
    · obtain rfl := Option.some.inj h
      cases hstate
    · split at h
      · cases h
      · obtain ⟨dispatch, hrun, rfl⟩ := Option.map_eq_some_iff.mp h
        refine ⟨?_, fun call hcall => Option.some.inj hcall ▸ run_eq_some hrun⟩
        cases hresult : dispatch.result with
        | error diags => simp [answer, hresult] at hstate
        | ok new =>
            simp only [answer, hresult, respondRead]
            rw [respondState_private (f := ReadResponse.private_) fun _ _ _ => rfl]
            exact congrArg (·.getD req.private_) (intoOutputs_privateOut dispatch.ops)
  · obtain rfl := Option.some.inj h
    cases hstate

theorem importResourceState_private {req : ImportRequest} {a : Answer ImportResponse} {imported : ImportedResource}
    (h : importResourceState crates provider req = some a)
    (himported : a.response.importedResources.head? = some imported) :
    imported.private_ = [] ∧ ∀ call, a.call = some call → call.privateIn = [] := by
  rw [importResourceState] at h
  split at h
  · obtain ⟨dispatch, hrun, rfl⟩ := Option.map_eq_some_iff.mp h
    refine ⟨?_, fun call hcall => Option.some.inj hcall ▸ run_eq_some hrun⟩
    cases hresult : dispatch.result with
    | error diags => simp [answer, hresult] at himported
    | ok state =>
        simp only [answer, hresult, respondImported] at himported
        split at himported
        · exact (Option.some.inj himported).symm ▸ rfl
        · cases himported
  · obtain rfl := Option.some.inj h
    cases himported

theorem planDecoded_private {req : PlanRequest} {ty : Ty} {block : Block} {prior proposed : Value}
    {a : Answer PlanResponse} (h : planDecoded crates provider req ty block prior proposed = some a)
    (hstate : a.response.plannedState.isSome = true) :
    a.response.plannedPrivate = keptPrivate a.call req.plannedPrivate ∧
      ∀ call, a.call = some call → call.privateIn = req.plannedPrivate := by
  have hrespond : ∀ {plan : Plan} {bytes : Bytes} {warnings : Diagnostics},
      (respondPlan crates provider req ty plan bytes warnings).plannedState.isSome = true →
      (respondPlan crates provider req ty plan bytes warnings).plannedPrivate = bytes := by
    intro plan bytes warnings hsome
    rw [respondPlan] at hsome ⊢
    split at hsome
    · rfl
    · cases hsome
  rw [planDecoded] at h
  split at h
  · obtain rfl := Option.some.inj h
    exact ⟨hrespond hstate, fun _ hcall => by cases hcall⟩
  · obtain ⟨dispatch, hrun, rfl⟩ := Option.map_eq_some_iff.mp h
    refine ⟨?_, fun call hcall => Option.some.inj hcall ▸ run_eq_some hrun⟩
    cases hresult : dispatch.result with
    | error diags => simp [answer, hresult] at hstate
    | ok mods =>
        simp only [answer, hresult] at hstate ⊢
        rw [hrespond hstate]
        exact congrArg (·.getD req.plannedPrivate) (intoOutputs_privateOut dispatch.ops)

theorem planResourceChange_private {req : PlanRequest} {a : Answer PlanResponse}
    (h : planResourceChange crates provider req = some a) (hstate : a.response.plannedState.isSome = true) :
    a.response.plannedPrivate = keptPrivate a.call req.plannedPrivate ∧
      ∀ call, a.call = some call → call.privateIn = req.plannedPrivate := by
  rw [planResourceChange] at h
  split at h
  · split at h
    · obtain rfl := Option.some.inj h
      cases hstate
    · split at h
      · obtain rfl := Option.some.inj h
        cases hstate
      · exact planDecoded_private h hstate
  · obtain rfl := Option.some.inj h
    cases hstate

theorem dispatchApply_privateIn {handler : DynResource} {planned prior : Value} {limit : Option Duration}
    {privateIn : Bytes} {dispatch : Dispatch Value}
    (h : dispatchApply handler planned prior limit privateIn = some dispatch) : dispatch.privateIn = privateIn := by
  rw [dispatchApply] at h
  split_ifs at h <;> exact run_eq_some h

theorem applyResourceChange_private {req : ApplyRequest} {a : Answer ApplyResponse}
    (h : applyResourceChange crates provider req = some a) (hstate : a.response.newState.isSome = true) :
    ∃ call, a.call = some call ∧ call.privateIn = req.plannedPrivate ∧
      a.response.private_ = if call.returned then keptPrivate a.call req.plannedPrivate else [] := by
  have hrefuse : ∀ {response : ApplyResponse}, response.newState = none → refuse response ≠ some a := by
    intro response hnone hsome
    obtain rfl := Option.some.inj hsome
    simp [hnone] at hstate
  rw [applyResourceChange] at h
  split at h
  · split at h
    · exact absurd h (hrefuse rfl)
    · split at h
      · exact absurd h (hrefuse rfl)
      · split at h
        · exact absurd h (hrefuse rfl)
        · rw [applyDecoded] at h
          split at h
          · cases h
          · obtain ⟨dispatch, hdispatch, rfl⟩ := Option.map_eq_some_iff.mp h
            refine ⟨_, rfl, dispatchApply_privateIn hdispatch, ?_⟩
            cases hresult : dispatch.result with
            | error diags => simp [answer, hresult, respondApply, Except.isOk, Except.toBool]
            | ok new =>
                simp only [answer, hresult, respondApply]
                rw [respondState_private (f := ApplyResponse.private_) fun _ _ _ => rfl]
                exact congrArg (·.getD req.plannedPrivate) (intoOutputs_privateOut dispatch.ops)
  · exact absurd h (hrefuse rfl)

theorem moveResourceState_private {req : MoveRequest} {a : Answer MoveResponse}
    (h : moveResourceState crates provider req = some a) (hstate : a.response.targetState.isSome = true) :
    a.response.targetPrivate = keptPrivate a.call req.sourcePrivate ∧
      ∀ call, a.call = some call → call.privateIn = req.sourcePrivate := by
  have hrefuse : ∀ {response : MoveResponse}, response.targetState = none → refuse response ≠ some a := by
    intro response hnone hsome
    obtain rfl := Option.some.inj hsome
    simp [hnone] at hstate
  rw [moveResourceState] at h
  split at h
  · split at h
    · exact absurd h (hrefuse rfl)
    · exact absurd h (hrefuse rfl)
    · split at h
      · exact absurd h (hrefuse rfl)
      · split at h
        · exact absurd h (hrefuse rfl)
        · obtain ⟨dispatch, hrun, rfl⟩ := Option.map_eq_some_iff.mp h
          refine ⟨?_, fun call hcall => Option.some.inj hcall ▸ run_eq_some hrun⟩
          cases hresult : dispatch.result with
          | error diags => simp [answer, hresult] at hstate
          | ok target =>
              simp only [answer, hresult, respondMoved] at hstate ⊢
              split at hstate
              · exact congrArg (·.getD req.sourcePrivate) (intoOutputs_privateOut dispatch.ops)
              · cases hstate
  · exact absurd h (hrefuse rfl)

theorem keptPrivate_inj {call : Option CtxCall} {bytes bytes' : Bytes}
    (h : keptPrivate call bytes = keptPrivate call bytes') (hcall : call = none) : bytes = bytes' := by
  rw [hcall] at h
  exact h

theorem threaded_iff_of_reply {core : Core} {rpc : Rpc} {reply : Reply} (hreply : rpc.reply crates = some reply) :
    Threaded crates core rpc ↔ reply.private_ = keptPrivate reply.call (core.sent rpc) ∧
      ∀ call, reply.call = some call → call.privateIn = core.sent rpc := by
  constructor
  · exact fun h => h reply hreply
  · intro h reply' hreply'
    rw [hreply] at hreply'
    exact Option.some.inj hreply' ▸ h

theorem step_threaded_iff {core core' : Core} {rpc : Rpc} (h : Step crates core rpc core') :
    Threaded crates core rpc ↔ Threads crates core rpc := by
  obtain ⟨reply, hsends, hreply, hok⟩ := h
  rw [threaded_iff_of_reply hreply]
  have hreply' := hreply
  have hstate : reply.state.isSome = true := (Bool.and_eq_true_iff.mp hok).1
  cases rpc with
  | import_ provider req =>
      obtain ⟨a, ha, rfl⟩ := Option.map_eq_some_iff.mp hreply'
      obtain ⟨state, hsome⟩ := Option.isSome_iff_exists.mp hstate
      obtain ⟨imported, himported, -⟩ := Option.bind_eq_some_iff.mp hsome
      obtain ⟨hprivate, hshown⟩ := importResourceState_private ha himported
      simp only [himported, Option.map_some, Option.getD_some, hprivate]
      constructor
      · intro h reply hr
        rw [hreply] at hr
        exact Option.some.inj hr ▸ h.1.symm
      · intro h
        exact ⟨(h _ hreply).symm, hshown⟩
  | read provider req =>
      obtain ⟨a, ha, rfl⟩ := Option.map_eq_some_iff.mp hreply'
      have hsends : req.private_ = core.stored := hsends
      have hprivate := readResource_private ha hstate
      rw [hsends] at hprivate
      exact iff_of_true hprivate trivial
  | plan provider req =>
      obtain ⟨a, ha, rfl⟩ := Option.map_eq_some_iff.mp hreply'
      obtain ⟨hprivate, hshown⟩ := planResourceChange_private ha hstate
      constructor
      · rintro ⟨hkept, hcore⟩
        cases hcall : a.call with
        | none => exact keptPrivate_inj (hprivate.symm.trans hkept) hcall
        | some call => exact (hshown call hcall).symm.trans (hcore call hcall)
      · intro hfield
        have hfield : req.plannedPrivate = core.stored := hfield
        rw [hfield] at hprivate hshown
        exact ⟨hprivate, hshown⟩
  | apply provider req =>
      obtain ⟨a, ha, rfl⟩ := Option.map_eq_some_iff.mp hreply'
      have hsent : core.sent (.apply provider req) = req.plannedPrivate := by
        have hsends : core.planned = some req.plannedPrivate := hsends
        rw [Core.sent, hsends, Option.getD_some]
      obtain ⟨call, hcall, hshown, hprivate⟩ := applyResourceChange_private ha hstate
      rw [hsent]
      constructor
      · rintro ⟨hkept, -⟩ reply call' hr hcall'
        rw [hreply] at hr
        obtain rfl := Option.some.inj hr
        obtain rfl := Option.some.inj (hcall.symm.trans hcall')
        cases hreturned : call.returned with
        | true => exact .inl rfl
        | false =>
            rw [hreturned] at hprivate
            exact .inr (hkept.symm.trans hprivate)
      · intro hthreads
        refine ⟨?_, fun call' hcall' => Option.some.inj (hcall.symm.trans hcall') ▸ hshown⟩
        obtain hreturned | hempty := hthreads _ call hreply hcall
        · exact hprivate.trans (if_pos hreturned)
        · refine hprivate.trans ?_
          have hempty : keptPrivate a.call req.plannedPrivate = [] := hempty
          rw [hempty, ite_self]
  | move provider req =>
      obtain ⟨a, ha, rfl⟩ := Option.map_eq_some_iff.mp hreply'
      have hsends : req.sourcePrivate = core.stored := hsends
      have hprivate := moveResourceState_private ha hstate
      rw [hsends] at hprivate
      exact iff_of_true hprivate trivial

/-- The core as it should be after a call: with the bytes the handler set, or
else those that were sent. -/
def Core.ideal (crates : Crates) (core : Core) (rpc : Rpc) : Core :=
  core.next rpc (keptPrivate ((rpc.reply crates).bind (·.call)) (core.sent rpc))

theorem step_eq_ideal {core core' : Core} {rpc : Rpc} (h : Step crates core rpc core')
    (hthreads : Threads crates core rpc) : core' = core.ideal crates rpc := by
  have hthreaded := (step_threaded_iff h).mpr hthreads
  obtain ⟨reply, -, hreply, -⟩ := h
  rw [Core.ideal, hreply, Option.bind_some, (hthreaded reply hreply).1]

/-- Bytes that were planned are the stored ones, or were set while planning. -/
def Core.Intact (core : Core) : Prop := ∀ bytes, core.planned = some bytes → bytes = core.stored

/-- A call, other than an import, whose handler sets no bytes. -/
structure Silent (crates : Crates) (rpc : Rpc) : Prop where
  notImport : ∀ provider req, rpc ≠ .import_ provider req
  notSet : ∀ call, (rpc.reply crates).bind (·.call) = some call → lastSet call.ops = none

theorem ideal_stored {core : Core} {rpc : Rpc} (hintact : core.Intact) (hsilent : Silent crates rpc)
    (hsends : core.Sends rpc) :
    (core.ideal crates rpc).stored = core.stored ∧ (core.ideal crates rpc).Intact := by
  have hkept : ∀ bytes, keptPrivate ((rpc.reply crates).bind (·.call)) bytes = bytes := by
    intro bytes
    cases hcall : (rpc.reply crates).bind (·.call) with
    | none => rfl
    | some call => simp [keptPrivate, hsilent.notSet call hcall]
  rw [Core.ideal, hkept]
  cases rpc with
  | import_ provider req => exact absurd rfl (hsilent.notImport provider req)
  | plan provider req => exact ⟨rfl, fun bytes hbytes => (Option.some.inj hbytes).symm⟩
  | apply provider req =>
      have hplanned : core.planned = some req.plannedPrivate := hsends
      refine ⟨?_, fun bytes hbytes => by cases hbytes⟩
      rw [Core.sent, hplanned]
      exact hintact _ hplanned
  | read provider req | move provider req => exact ⟨rfl, fun bytes hbytes => by cases hbytes⟩

/-- In a run of successful calls every reply threads the bytes exactly when
every call meets the condition. The core is then what it should be, and keeps
its bytes while the handlers set none. -/
theorem run_threaded_iff {start finish : Core} {trace : List (Core × Rpc)}
    (h : Run (Step crates) start trace finish) :
    ((∀ p ∈ trace, Threaded crates p.1 p.2) ↔ ∀ p ∈ trace, Threads crates p.1 p.2) ∧
      ((∀ p ∈ trace, Threads crates p.1 p.2) →
        finish = (trace.map Prod.snd).foldl (Core.ideal crates) start ∧
          (start.Intact → (∀ p ∈ trace, Silent crates p.2) → finish.stored = start.stored)) := by
  constructor
  · refine forall₂_congr fun p hp => ?_
    obtain ⟨core, hstep⟩ := h.step_of_mem hp
    exact step_threaded_iff hstep
  · intro hthreads
    refine ⟨h.eq_foldl (fun _ _ _ hstep => step_eq_ideal hstep) hthreads, fun hintact hsilent => ?_⟩
    have hinv : ∀ core rpc core', Step crates core rpc core' → Threads crates core rpc ∧ Silent crates rpc →
        core.stored = start.stored ∧ core.Intact → core'.stored = start.stored ∧ core'.Intact := by
      rintro core rpc core' hstep ⟨hthreads, hsilent⟩ ⟨hstored, hintact⟩
      have hsends : core.Sends rpc := by
        obtain ⟨reply, hsends, -, -⟩ := hstep
        exact hsends
      obtain ⟨hstored', hintact'⟩ := ideal_stored hintact hsilent hsends
      rw [step_eq_ideal hstep hthreads]
      exact ⟨hstored'.trans hstored, hintact'⟩
    exact (h.invariant hinv (fun p hp => ⟨hthreads p hp, hsilent p hp⟩) ⟨rfl, hintact⟩).1

def watchful : DynResource := { failing with
  read := fun current _ => ⟨[.setPrivate [7]], .returned (.ok (some current))⟩
  modifyPlan := fun _ _ _ => ⟨[], .returned (.ok .empty)⟩ }

def readNote : Rpc := .read (noteProvider false watchful) {
  typeName := "note"
  currentState := some (noteState "a")
  private_ := [] }

def planNote (sent : Bytes) : Rpc := .plan (noteProvider false watchful) {
  typeName := "note"
  priorState := some (noteState "a")
  proposedNewState := some (noteState "a")
  priorPrivate := [7]
  plannedPrivate := sent }

theorem reply_readNote : readNote.reply Crates.real =
    some ⟨some (noteState "a"), [7], [], some ⟨[], [.setPrivate [7]], true⟩⟩ := by
  have hty : (noteProvider false watchful).resourceCty "note" = some (noteBlock false).ctyType := rfl
  have hblock : (noteProvider false watchful).resourceBlock "note" = some (noteBlock false) := rfl
  have hhandler : (noteProvider false watchful).resourceHandler "note" = some watchful := rfl
  have hlimit : Timeouts.forOperation (note "a") "read" = .ok none := rfl
  have hrun : run "read resource" [] (Timeouts.bounded "read" none (watchful.read (note "a"))) =
      some ⟨[], [.setPrivate [7]], .ok (some (note "a"))⟩ := rfl
  have hstrip : WriteOnly.strip (note "a") (noteBlock false) = note "a" := rfl
  have hidentity : (noteProvider false watchful).resourceIdentity "note" = none := rfl
  simp only [readNote, Rpc.reply, readResource, hty, hblock, hhandler, decodeDynamic_note, hlimit, hrun,
    Option.map_some,
    answer, respondRead, respondState, Option.getD_some, hstrip, encodeDynamic_note, hidentity, Option.bind_none]
  rfl

theorem reply_planNote (sent : Bytes) : (planNote sent).reply Crates.real =
    some ⟨some (noteState "a"), sent, [], some ⟨sent, [], true⟩⟩ := by
  have hty : (noteProvider false watchful).resourceCty "note" = some (noteBlock false).ctyType := rfl
  have hblock : (noteProvider false watchful).resourceBlock "note" = some (noteBlock false) := rfl
  have hhandler : (noteProvider false watchful).resourceHandler "note" = some watchful := rfl
  have hplan : plan (note "a") (keepPrior (note "a") (note "a") watchful.semanticEquality) (noteBlock false) =
      ⟨note "a", []⟩ := rfl
  have hrun : run "modify_plan" sent (watchful.modifyPlan (note "a") (note "a")) = some ⟨sent, [], .ok .empty⟩ := rfl
  have hmods : applyModifications ⟨note "a", []⟩ .empty (note "a") = ⟨note "a", []⟩ := rfl
  simp only [planNote, Rpc.reply, planResourceChange, planDecoded, hty, hblock, hhandler, decodeDynamic_note, hplan,
    hrun, hmods, Option.map_some, answer, respondPlan, encodeDynamic_note]
  rfl

/-- A read, then a plan that is sent the stored bytes as the prior ones and
others as the planned ones. -/
def readPlan (sent : Bytes) : List (Core × Rpc) := [(⟨[], none⟩, readNote), (⟨[7], none⟩, planNote sent)]

theorem run_readPlan (sent : Bytes) : Run (Step Crates.real) ⟨[], none⟩ (readPlan sent) ⟨[7], some sent⟩ := by
  have hread : Step Crates.real ⟨[], none⟩ readNote ⟨[7], none⟩ :=
    .mk ⟨[], none⟩ readNote _ rfl reply_readNote rfl
  have hplan : Step Crates.real ⟨[7], none⟩ (planNote sent) ⟨[7], some sent⟩ :=
    .mk ⟨[7], none⟩ (planNote sent) _ rfl (reply_planNote sent) rfl
  exact .cons _ _ _ _ _ hread (.cons _ _ _ _ _ hplan (.nil _))

/-- Core sends the stored bytes as the prior ones, and the plan loses them. -/
theorem plan_loses_private : ∃ start finish trace, Run (Step Crates.real) start trace finish ∧
    ¬∀ p ∈ trace, Threaded Crates.real p.1 p.2 := by
  refine ⟨_, _, _, run_readPlan [], fun h => ?_⟩
  have hplan := (h _ (List.mem_cons_of_mem _ List.mem_cons_self) _ (reply_planNote [])).1
  cases hplan

theorem run_threaded_readPlan :
    ((∀ p ∈ readPlan [7], Threaded Crates.real p.1 p.2) ↔ ∀ p ∈ readPlan [7], Threads Crates.real p.1 p.2) ∧
      ((∀ p ∈ readPlan [7], Threads Crates.real p.1 p.2) →
        (⟨[7], some [7]⟩ : Core) = ((readPlan [7]).map Prod.snd).foldl (Core.ideal Crates.real) ⟨[], none⟩ ∧
          ((⟨[], none⟩ : Core).Intact → (∀ p ∈ readPlan [7], Silent Crates.real p.2) → ([7] : Bytes) = [])) :=
  run_threaded_iff (run_readPlan [7])

end

end Service

end TofuSdk
