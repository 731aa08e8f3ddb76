import TofuSdk.Service
import TofuSdk.Arrival

namespace TofuSdk

def CtxOp.privateBytes : CtxOp → Option Bytes
  | .setPrivate bytes => some bytes
  | _ => none

def lastSet (ops : List CtxOp) : Option Bytes := (ops.filterMap CtxOp.privateBytes).getLast?

theorem intoOutputs_append (ops : List CtxOp) (op : CtxOp) :
    intoOutputs (ops ++ [op]) = (intoOutputs ops).step op := List.foldl_append

theorem intoOutputs_privateOut (ops : List CtxOp) : (intoOutputs ops).privateOut = lastSet ops := by
  induction ops using List.reverseRecOn with
  | nil => rfl
  | append_singleton ops op ih =>
      rw [intoOutputs_append, lastSet, List.filterMap_append]
      cases op with
      | setPrivate bytes => simp [CtxOutputs.step, CtxOp.privateBytes]
      | _ => simpa [CtxOutputs.step, CtxOp.privateBytes, lastSet] using ih

namespace Service

/-- What the handler last set during the call, or else what came in. -/
def keptPrivate (call : Option CtxCall) (incoming : Bytes) : Bytes :=
  ((call.map (·.ops)).bind lastSet).getD incoming

def hasError (diagnostics : List Diagnostic) : Bool := diagnostics.any (·.severity == .error)

theorem hasError_append (ds es : List Diagnostic) : hasError (ds ++ es) = (hasError ds || hasError es) :=
  List.any_append

theorem hasError_errorDiag (summary detail : String) : hasError (errorDiag summary detail) = true := rfl

section

variable (crates : Crates) (provider : Provider)

/-- Does a state in a response stand for a value? -/
def DecodesTo (dv : Option DynamicValue) (ty : Ty) (v : Value) : Prop :=
  ∃ d w, dv = some d ∧ decodeDynamic crates (some d) ty = .ok w ∧ w.exact = v.exact

def Survives (ty : Ty) (v : Value) : Prop :=
  ∃ dv, encodeDynamic crates v ty = .ok dv ∧ DecodesTo crates (some dv) ty v

theorem decodesTo_toOption {ty : Ty} {v : Value} :
    DecodesTo crates (encodeDynamic crates v ty).toOption ty v ↔ Survives crates ty v := by
  cases henc : encodeDynamic crates v ty with
  | error e =>
      refine iff_of_false ?_ ?_
      · rintro ⟨d, w, hd, -⟩
        cases hd
      · rintro ⟨dv, hdv, -⟩
        rw [henc] at hdv
        cases hdv
  | ok dv =>
      constructor
      · exact fun h => ⟨dv, henc, h⟩
      · rintro ⟨dv', hdv', h⟩
        rw [henc] at hdv'
        exact Except.ok.inj hdv' ▸ h

/-- An apply that reports an error keeps the prior state and the private data. -/
def KeepsOnError (req : ApplyRequest) : Prop :=
  ∀ ty prior a, provider.resourceCty req.typeName = some ty → decodeDynamic crates req.priorState ty = .ok prior →
    applyResourceChange crates provider req = some a → hasError a.response.diagnostics = true →
    DecodesTo crates a.response.newState ty prior ∧ a.response.private_ = keptPrivate a.call req.plannedPrivate

/-- A handler call that an answer loses nothing of. One that succeeds returns a
state that arrives somehow, and reports an error of its own only if it arrives as
the prior one. One that fails has a prior state of even shape and without the
float two to the 63, and no private data. -/
def LossFree (req : ApplyRequest) (ty : Ty) (block : Block) (prior : Value) (dispatch : Dispatch Value) : Prop :=
  match dispatch.result with
  | .ok new => ∃ u, Arrives ty (WriteOnly.strip new block) u ∧
      (hasError (pbDiagnostics dispatch.outs.warnings) = true → u = prior.exact)
  | .error diags => hasError (diagsWithWarnings diags dispatch.outs) = true →
      (Even ty prior ∧ ValueOf.everyNumber (fun n => !n.saturates) prior = true) ∧
        (lastSet dispatch.ops).getD req.plannedPrivate = []

/-- The resource has a handler, the other states of the request decode, and the
handler call is free of loss. -/
def SafeToFail (req : ApplyRequest) : Prop :=
  ∀ ty block prior, provider.resourceCty req.typeName = some ty → provider.resourceBlock req.typeName = some block →
    decodeDynamic crates req.priorState ty = .ok prior →
    ∃ handler planned merged, provider.resourceHandler req.typeName = some handler ∧
      decodeDynamic crates req.plannedState ty = .ok planned ∧
      withConfig crates req.config ty block planned = .ok merged ∧
      ∀ limit dispatch,
        Timeouts.forOperation (if merged.isNull then prior else merged) (action merged prior) = .ok limit →
        dispatchApply handler merged prior limit req.plannedPrivate = some dispatch →
        LossFree req ty block prior dispatch

/-- A complete value whose dynamic slots read back survives unless a number of
it is the float two to the 63. -/
theorem survives_iff (hc : crates.Lawful) {slot : Value → Prop}
    (hslot : ∀ v, slot v → ∃ mp, toMp crates v .dynamic = .ok mp ∧
      fromMp crates mp .dynamic = .ok (v.mapNumber Number.onWire))
    {ty : Ty} {v : Value} (hn : ty.distinctNames = true) (hv : ConformsWith slot ty v)
    (hcomplete : complete ty v = v) :
    Survives crates ty v ↔ ValueOf.everyNumber (fun n => !n.saturates) v = true := by
  obtain ⟨bytes, henc, -⟩ := decodeMsgpack_encodeMsgpack hc hslot hn hv
  have hdv : encodeDynamic crates v ty = .ok ⟨bytes, []⟩ := by rw [encodeDynamic, henc, Outcome.map_ok]
  obtain ⟨mp, hmp, -, hdecode⟩ := decodeDynamic_of_encodeDynamic hc hdv
  obtain ⟨mp', hmp', hfrom⟩ := fromMp_toMp hslot hn hv
  obtain rfl : mp = mp' := Except.ok.inj (hmp.symm.trans hmp')
  rw [hcomplete, ← hdecode ty] at hfrom
  rw [← exact_onWire_iff]
  constructor
  · rintro ⟨dv, hdv', d, w, hd, hw, hexact⟩
    obtain rfl : _ = dv := Except.ok.inj (hdv.symm.trans hdv')
    obtain rfl := Option.some.inj hd
    obtain rfl := Except.ok.inj (hfrom.symm.trans hw)
    exact hexact
  · exact fun h => ⟨_, hdv, _, _, rfl, hfrom, h⟩

variable {crates}

theorem encodeDynamic_arrives (hc : crates.Lawful) (ht : crates.ReadsTypes) {ty : Ty} (hn : ty.distinctNames = true)
    {v : Value} {dv : DynamicValue} (h : encodeDynamic crates v ty = .ok dv) (prior : Value) :
    DecodesTo crates (some dv) ty prior ↔ Arrives ty v prior.exact := by
  obtain ⟨mp, hmp, -, hdecode⟩ := decodeDynamic_of_encodeDynamic hc h
  rw [arrives_iff ht hn]
  constructor
  · rintro ⟨d, w, hd, hw, hexact⟩
    obtain rfl := Option.some.inj hd
    exact ⟨mp, w, hmp, (hdecode ty).symm.trans hw, hexact⟩
  · rintro ⟨mp', w, hmp', hw, hexact⟩
    obtain rfl := Except.ok.inj (hmp.symm.trans hmp')
    exact ⟨dv, w, rfl, (hdecode ty).trans hw, hexact⟩

theorem exists_encodeDynamic (hc : crates.Lawful) (ht : crates.ReadsTypes) {ty : Ty} (hn : ty.distinctNames = true)
    {v : Value} : (∃ dv, encodeDynamic crates v ty = .ok dv) ↔ ∃ u, Arrives ty v u := by
  constructor
  · rintro ⟨dv, hdv⟩
    obtain ⟨mp, hmp, -⟩ := decodeDynamic_of_encodeDynamic hc hdv
    exact exists_arrives ⟨mp, hmp⟩
  · rintro ⟨u, hu⟩
    obtain ⟨mp, w, hmp, -⟩ := hu.exists_fromMp ht hn
    obtain ⟨bytes, hbytes, -⟩ := hc.encodeMsgpack_of_toMp hmp
    exact ⟨⟨bytes, []⟩, by rw [encodeDynamic, hbytes, Outcome.map_ok]⟩

theorem wellTyped_decodeDynamic {dv : Option DynamicValue} {ty : Ty} {v : Value}
    (h : decodeDynamic crates dv ty = .ok v) : WellTyped true ty v := by
  cases dv with
  | none =>
      cases h
      exact .null ty
  | some dv =>
      rw [decodeDynamic, decodeArgument] at h
      split_ifs at h
      · rw [decodeMsgpack] at h
        split_ifs at h
        · cases h
          exact .null ty
        · obtain ⟨mp, -, h⟩ := Outcome.bind_eq_ok.mp h
          exact (fromMp_conveys h).wellTyped
      · obtain ⟨json, -, h⟩ := Outcome.bind_eq_ok.mp h
        exact wellTyped_decodeJson h
      · cases h
        exact .null ty

theorem survives_iff_even (hc : crates.Lawful) (ht : crates.ReadsTypes) {ty : Ty} (hn : ty.distinctNames = true)
    {v : Value} (hv : WellTyped true ty v) :
    Survives crates ty v ↔ Even ty v ∧ ValueOf.everyNumber (fun n => !n.saturates) v = true := by
  rw [← arrives_self_iff ht hn hv]
  constructor
  · rintro ⟨dv, hdv, h⟩
    exact (encodeDynamic_arrives hc ht hn hdv v).mp h
  · intro h
    obtain ⟨dv, hdv⟩ := (exists_encodeDynamic hc ht hn).mpr ⟨_, h⟩
    exact ⟨dv, hdv, (encodeDynamic_arrives hc ht hn hdv v).mpr h⟩

variable (crates)

theorem not_decodesTo_none {ty : Ty} {v : Value} : ¬DecodesTo crates none ty v := by
  rintro ⟨d, w, hd, -⟩
  cases hd

theorem respondApply_keeps_iff (hc : crates.Lawful) (ht : crates.ReadsTypes) (req : ApplyRequest) {ty : Ty}
    (hn : ty.distinctNames = true) (block : Block) {prior : Value} (hprior : WellTyped true ty prior)
    (dispatch : Dispatch Value) :
    (hasError (respondApply crates provider req ty block prior dispatch.result dispatch.outs).diagnostics = true →
      DecodesTo crates (respondApply crates provider req ty block prior dispatch.result dispatch.outs).newState ty
          prior ∧
        (respondApply crates provider req ty block prior dispatch.result dispatch.outs).private_ =
          (lastSet dispatch.ops).getD req.plannedPrivate) ↔
      LossFree req ty block prior dispatch := by
  have hprivate : dispatch.outs.privateOut = lastSet dispatch.ops := intoOutputs_privateOut dispatch.ops
  cases hresult : dispatch.result with
  | ok new =>
      simp only [respondApply, respondState, LossFree, hresult, hprivate]
      cases henc : encodeDynamic crates (WriteOnly.strip new block) ty with
      | ok dv =>
          obtain ⟨u, hu⟩ := (exists_encodeDynamic hc ht hn).mp ⟨dv, henc⟩
          simp only [encodeDynamic_arrives hc ht hn henc, and_true]
          constructor
          · exact fun h => ⟨u, hu, fun herror => hu.unique ht hn (h herror)⟩
          · rintro ⟨u', hu', h⟩ herror
            exact h herror ▸ hu'
      | error e =>
          have hnone : ¬∃ u, Arrives ty (WriteOnly.strip new block) u := by
            intro h
            obtain ⟨dv, hdv⟩ := (exists_encodeDynamic hc ht hn).mpr h
            cases henc.symm.trans hdv
          simp only [hasError_append, hasError_errorDiag, Bool.or_true, forall_const, not_decodesTo_none, false_and,
            false_iff]
          exact fun ⟨u, hu, _⟩ => hnone ⟨u, hu⟩
  | error diags =>
      simp only [respondApply, LossFree, hresult, decodesTo_toOption, survives_iff_even hc ht hn hprior]
      exact imp_congr_right fun _ => and_congr_right fun _ => eq_comm

def noteBlock (writeOnly : Bool) : Block where
  attributes := [{ AttributeSchema.new "text" .string with optional := true, writeOnly := writeOnly }]
  nestedBlocks := []

def note (text : String) : Value := .object (OrdMap.empty.insert "text" (.string text))

def noteMp (text : String) : Mp := .map [(.string (.text "text"), .string (.text text))]

def noteState (text : String) : DynamicValue := ⟨MessagePack.write (noteMp text), []⟩

theorem encodeDynamic_note (text : String) (writeOnly : Bool) :
    encodeDynamic Crates.real (note text) (noteBlock writeOnly).ctyType = .ok (noteState text) := by
  have hsorted : sortedByName [⟨"text", Ty.string, true⟩] = [⟨"text", .string, true⟩] := by simp [sortedByName]
  have hmp : toMp Crates.real (note text) (noteBlock writeOnly).ctyType = .ok (noteMp text) := by
    change encodeObject Crates.real (OrdMap.empty.insert "text" (.string text)) [⟨"text", .string, true⟩] = _
    rw [encodeObject_eq, hsorted]
    rfl
  rw [encodeDynamic, encodeMsgpack, hmp]
  rfl

theorem decodeDynamic_note (text : String) (writeOnly : Bool) :
    decodeDynamic Crates.real (some (noteState text)) (noteBlock writeOnly).ctyType = .ok (note text) := by
  rw [noteState, decodeDynamic_of_write Crates.real_lawful rfl]
  rfl

def refused {α : Type} : Call α := ⟨[], .returned (.error [Diag.error "unsupported" "the backend refused"])⟩

def failing : DynResource where
  create _ _ := refused
  read _ _ := refused
  update _ _ _ := refused
  delete _ _ := refused
  import_ _ _ := refused
  upgrade _ _ _ := refused
  modifyPlan _ _ _ := refused
  moveState _ _ _ := refused
  semanticEquality := Canon.new

def noteProvider (writeOnly : Bool) (handler : DynResource) : Provider where
  schema := ⟨[⟨"note", 0, noteBlock writeOnly, none⟩], []⟩
  eager name := if name = "note" then some handler else none
  eagerList _ := none
  configured := none

def destroyNote : ApplyRequest where
  typeName := "note"
  priorState := some (noteState "a")
  plannedState := some ⟨[0xc0], []⟩
  config := none
  plannedPrivate := [7]

def refusedDestroy : Dispatch Value := ⟨[7], [], .error [Diag.error "unsupported" "the backend refused"]⟩

theorem apply_destroyNote : applyResourceChange Crates.real (noteProvider false failing) destroyNote =
    some (answer refusedDestroy (respondApply Crates.real (noteProvider false failing) destroyNote
      (noteBlock false).ctyType (noteBlock false) (note "a") refusedDestroy.result refusedDestroy.outs)) := by
  have hty : (noteProvider false failing).resourceCty "note" = some (noteBlock false).ctyType := rfl
  have hblock : (noteProvider false failing).resourceBlock "note" = some (noteBlock false) := rfl
  have hhandler : (noteProvider false failing).resourceHandler "note" = some failing := rfl
  have hplanned : decodeDynamic Crates.real (some ⟨[0xc0], []⟩) (noteBlock false).ctyType = .ok .null := rfl
  simp only [applyResourceChange, destroyNote, hty, hblock, hhandler, hplanned, decodeDynamic_note]
  rfl

def destroyBare : ApplyRequest := { destroyNote with plannedPrivate := [] }

end

end Service

end TofuSdk
