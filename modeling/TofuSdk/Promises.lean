import TofuSdk.Exposure
import TofuSdk.Replace

namespace TofuSdk

open ValueOf

section

variable {via : NestingMode → Prop} {nesting : NestingMode} {block : Block} {v w elem : Value} {s p : Path}
  {attr : AttributeSchema} {x : Option Value}

theorem getAtPath_attribute (fields : Fields) (name : String) :
    getAtPath (.object fields) [.attribute name] = fields.get? name := by
  rw [getAtPath_eq]
  exact Option.bind_fun_some _

theorem kind_eq_object (h : v.kind = "object") : ∃ fields, v = .object fields := by
  cases v with
  | object fields => exact ⟨fields, rfl⟩
  | _ => simp [Value.kind] at h

theorem AttrAtVia.of_kinds (h : AttrAtVia via block v p attr x)
    (hsame : ∀ q, q <+: p → (getAtPath w q).map Value.kind = (getAtPath v q).map Value.kind) :
    ∃ y, AttrAtVia via block w p attr y ∧ y.map Value.kind = x.map Value.kind := by
  have hroot : (getAtPath w []).map Value.kind = (getAtPath v []).map Value.kind := hsame [] List.nil_prefix
  induction h generalizing w with
  | here block fields attr ha =>
      obtain ⟨fields', rfl⟩ := kind_eq_object (Option.some.inj hroot)
      refine ⟨_, .here block fields' attr ha, ?_⟩
      rw [← getAtPath_attribute, ← getAtPath_attribute]
      exact hsame _ List.prefix_rfl
  | nested block fields nested child elem s p attr x hn hvia hchild helem h ih =>
      obtain ⟨fields', rfl⟩ := kind_eq_object (Option.some.inj hroot)
      obtain ⟨henters, hholds, hget⟩ := elementAt_eq_some.mp helem
      have hname := hsame [.attribute nested.name] ((List.prefix_append _ _).trans (List.prefix_append [_] _))
      rw [getAtPath_attribute, getAtPath_attribute, hchild] at hname
      obtain ⟨child', hchild', hkind⟩ := Option.map_eq_some_iff.mp hname
      have hbelow : ∀ r, r <+: s ++ p → (getAtPath child' r).map Value.kind = (getAtPath child r).map Value.kind := by
        intro r hr
        have hr := hsame (.attribute nested.name :: r) (List.cons_prefix_cons.mpr ⟨rfl, hr⟩)
        rw [← List.singleton_append, getAtPath_append, getAtPath_append, getAtPath_attribute, getAtPath_attribute,
          hchild, hchild'] at hr
        exact hr
      have helement := hbelow s (List.prefix_append _ _)
      rw [hget] at helement
      obtain ⟨elem', hget', -⟩ := Option.map_eq_some_iff.mp helement
      have hinner : ∀ r, r <+: p → (getAtPath elem' r).map Value.kind = (getAtPath elem r).map Value.kind := by
        intro r hr
        have hr := hbelow (s ++ r) ((List.prefix_append_right_inj s).mpr hr)
        rw [getAtPath_append, getAtPath_append, hget, hget'] at hr
        exact hr
      obtain ⟨y, hy, hkinds⟩ := ih hinner (hinner [] List.nil_prefix)
      have helem' : elementAt nested.nesting child' s = some elem' :=
        elementAt_eq_some.mpr ⟨henters, fun kind hmem => hkind.trans (hholds kind hmem), hget'⟩
      exact ⟨y, .nested block fields' nested child' elem' s p attr y hn hvia hchild' helem' hy, hkinds⟩

theorem kind_update (v : Value) (s : PathStep) (f : Value → Value) : (PathStep.update v s f).kind = v.kind := by
  rcases s with name | i | k
  · cases v <;> rfl
  · by_cases hi : 0 ≤ i <;> cases v <;> simp [PathStep.update, hi, Value.kind]
  · cases v <;> rfl

theorem kind_applyModifications {plan : Plan} {mods : PlanModifications} {prior : Value}
    (hfree : ∀ k ∈ mods.keepPrior ++ mods.unknown, ¬k <+: p) :
    (getAtPath (applyModifications plan mods prior).planned p).map Value.kind =
      (getAtPath plan.planned p).map Value.kind := by
  have hkept := TreePath.overlay_spec kind_update (coherent_getAtPath prior) plan.planned mods.keepPrior
  have hunknown := TreePath.overlay_spec kind_update coherent_unknown
    (valueTree.overlay (getAtPath prior) plan.planned mods.keepPrior) mods.unknown
  rw [applyModifications_planned, getAtPath_eq, getAtPath_eq]
  apply (hunknown.outside p fun k hk => hfree k (List.mem_append_right _ hk.1)).trans
  exact hkept.outside p fun k hk => hfree k (List.mem_append_left _ hk.1)

end

section

variable {crates : Crates} {x y elem : Value} {s p : Path}

theorem Alike.attrAt {block : Block} {attr : AttributeSchema} {d : Option Value} (hat : AttrAt block y p attr d)
    (h : Alike crates block.ctyType x y) :
    ∃ c, AttrAt block x p attr c ∧ Alike crates attr.ty (c.getD .null) (d.getD .null) := by
  induction hat generalizing x with
  | here block fields attr ha =>
      rw [Block.ctyType_eq] at h
      obtain ⟨fields', rfl, halike⟩ := h.attribute (List.mem_append_left _ (List.mem_map_of_mem ha))
      exact ⟨_, .here block fields' attr ha, halike⟩
  | nested block fields nested child elem s p attr d hn hvia hchild helem hat ih =>
      rw [Block.ctyType_eq] at h
      obtain ⟨fields', rfl, halike⟩ := h.attribute (List.mem_append_right _ (List.mem_map_of_mem hn))
      rw [hchild] at halike
      obtain ⟨elem', helem', halike⟩ := Alike.elementAt halike helem
      obtain ⟨c, hc, hslot⟩ := ih halike
      cases hchild' : fields'.get? nested.name with
      | some child' =>
          rw [hchild'] at helem'
          exact ⟨c, .nested block fields' nested child' elem' s p attr c hn hvia hchild' helem' hc, hslot⟩
      | none =>
          rw [hchild'] at helem'
          obtain ⟨inner, rfl⟩ := hc.object
          obtain ⟨-, -, hget⟩ := elementAt_eq_some.mp helem'
          cases s with
          | nil => cases hget
          | cons step _ => cases step <;> cases hget

end

def AttributeSchema.isDerived (attr : AttributeSchema) : Bool :=
  attr.computed && !attr.required && attr.default.isNone

/-- The modifications name an attribute: they write its value or that of what it
is part of, or ask that it forces replacement. -/
def PlanModifications.Names (mods : PlanModifications) (p : Path) : Prop :=
  (∃ k ∈ mods.keepPrior ++ mods.unknown, k <+: p) ∨ p ∈ mods.requireReplace

/-- The positions at which a replacement has to be planned unknown: derived
attributes that are null in the configuration and that no modification names. -/
def Fresh (block : Block) (config : Value) (mods : PlanModifications) (p : Path) (attr : AttributeSchema) : Prop :=
  attr.isDerived = true ∧ (∃ x, AttrAt block config p attr x ∧ isNullSlot x = true) ∧ ¬mods.Names p

theorem isUnknown_kind {x : Option Value} : x.map Value.kind = some "unknown" ↔ x = some .unknown := by
  rcases x with _ | v
  · simp
  · cases v <;> simp [Value.kind]

theorem plannedSlot_derived {attr : AttributeSchema} (h : attr.isDerived = true) (replacing : Bool) (x : Option Value) :
    plannedSlot replacing attr x = some .unknown ↔
      attr.writeOnly = false ∧ (replacing = true ∨ isNullSlot x = true ∨ x = some .unknown) := by
  simp only [AttributeSchema.isDerived, Bool.and_eq_true, Bool.not_eq_true', Option.isNone_iff_eq_none] at h
  obtain ⟨⟨hcomputed, hrequired⟩, hdefault⟩ := h
  have hmark : markSlot replacing attr x = if replacing || isNullSlot x then some .unknown else x := by
    simp only [markSlot, hcomputed, hrequired, hdefault, Bool.true_and, Bool.false_eq_true, if_false]
    cases isNullSlot x <;> rfl
  rw [plannedSlot, stripSlot, hmark]
  cases attr.writeOnly with
  | true => simp
  | false => cases replacing <;> cases isNullSlot x <;> simp

namespace Service

section

variable (crates : Crates) (provider : Provider) (block : Block)

/-- What a request is planned from: the prior state, the proposed state after
semantic equality, and the modifications that the handler asks for, if there is one. -/
def Drafted (req : PlanRequest) (prior proposed : Value) (mods : PlanModifications) : Prop :=
  decodeDynamic crates req.priorState block.ctyType = .ok prior ∧
    ∃ sent, decodeDynamic crates req.proposedNewState block.ctyType = .ok sent ∧
      match provider.resourceHandler req.typeName with
      | none => proposed = sent ∧ mods = .empty
      | some handler => proposed = keepPrior prior sent handler.semanticEquality ∧
          Returns "modify_plan" req.plannedPrivate (handler.modifyPlan prior (plan prior proposed block).planned) mods

/-- A planned state without values of the old object: whatever value it stands
for is unknown where the replacement is. -/
def PromisesNothing (config : Value) (mods : PlanModifications) (dv : DynamicValue) : Prop :=
  ∀ v, encodeDynamic crates v block.ctyType = .ok dv → ∀ p attr x, AttrAt block v p attr x →
    Fresh block config mods p attr → x = some .unknown

variable {crates provider block}

theorem drafted_of_replaces {req : PlanRequest} {a : Answer PlanResponse}
    (hblock : provider.resourceBlock req.typeName = some block)
    (ha : planResourceChange crates provider req = some a) (hreplace : a.response.requiresReplace ≠ []) :
    ∃ prior proposed mods dv, Drafted crates provider block req prior proposed mods ∧
      a.response.plannedState = some dv ∧
      encodeDynamic crates (applyModifications (plan prior proposed block) mods prior).planned block.ctyType =
          .ok dv := by
  have hrespond : ∀ {base bytes warnings}, a.response =
      respondPlan crates provider req block.ctyType base bytes warnings →
      ∃ dv, a.response.plannedState = some dv ∧ encodeDynamic crates base.planned block.ctyType = .ok dv := by
    intro base bytes warnings hresponse
    rw [respondPlan] at hresponse
    cases henc : encodeDynamic crates base.planned block.ctyType with
    | error e =>
        rw [henc] at hresponse
        exact absurd (congrArg PlanResponse.requiresReplace hresponse) hreplace
    | ok dv =>
        rw [henc] at hresponse
        exact ⟨dv, congrArg PlanResponse.plannedState hresponse, rfl⟩
  rw [planResourceChange, Provider.resourceCty_eq hblock, hblock] at ha
  cases hprior : decodeDynamic crates req.priorState block.ctyType with
  | error e =>
      simp only [hprior] at ha
      obtain rfl := Option.some.inj ha
      exact absurd rfl hreplace
  | ok prior =>
      cases hproposed : decodeDynamic crates req.proposedNewState block.ctyType with
      | error e =>
          simp only [hprior, hproposed] at ha
          obtain rfl := Option.some.inj ha
          exact absurd rfl hreplace
      | ok proposed =>
          simp only [hprior, hproposed, planDecoded] at ha
          cases hhandler : provider.resourceHandler req.typeName with
          | none =>
              simp only [hhandler] at ha
              obtain ⟨dv, hdv, henc⟩ := hrespond (congrArg Answer.response (Option.some.inj ha)).symm
              refine ⟨prior, proposed, .empty, dv, ⟨hprior, proposed, hproposed, ?_⟩, hdv, henc⟩
              rw [hhandler]
              exact ⟨rfl, rfl⟩
          | some handler =>
              simp only [hhandler] at ha
              obtain ⟨dispatch, hrun, hanswer⟩ := Option.map_eq_some_iff.mp ha
              cases hresult : dispatch.result with
              | error diags =>
                  rw [hresult] at hanswer
                  obtain rfl := hanswer
                  exact absurd rfl hreplace
              | ok mods =>
                  rw [hresult] at hanswer
                  obtain ⟨dv, hdv, henc⟩ := hrespond (congrArg Answer.response hanswer).symm
                  refine ⟨prior, _, mods, dv, ⟨hprior, proposed, hproposed, ?_⟩, hdv, henc⟩
                  rw [hhandler]
                  exact ⟨rfl, dispatch, hrun, hresult⟩

theorem promisesNothing_iff_base (hc : crates.Lawful) (config : Value) {base : Plan} {mods : PlanModifications}
    {prior : Value} {dv : DynamicValue}
    (henc : encodeDynamic crates (applyModifications base mods prior).planned block.ctyType = .ok dv) :
    PromisesNothing crates block config mods dv ↔ ∀ p attr x, AttrAt block base.planned p attr x →
      Fresh block config mods p attr → x = some .unknown := by
  have hkinds : ∀ {p attr}, Fresh block config mods p attr → ∀ q, q <+: p →
      (getAtPath (applyModifications base mods prior).planned q).map Value.kind =
        (getAtPath base.planned q).map Value.kind := by
    intro p attr hfresh q hq
    exact kind_applyModifications fun k hk hpre => hfresh.2.2 (.inl ⟨k, hk, hpre.trans hq⟩)
  constructor
  · intro h p attr x hat hfresh
    obtain ⟨y, hy, hsame⟩ := hat.of_kinds (hkinds hfresh)
    obtain rfl := h _ henc p attr y hy hfresh
    exact isUnknown_kind.mp hsame.symm
  · intro h v hv p attr x hat hfresh
    obtain ⟨y, hy, halike⟩ := Alike.attrAt hat (alike_of_encodeDynamic hc henc hv)
    obtain ⟨z, hz, hsame⟩ := hy.of_kinds fun q hq => (hkinds hfresh q hq).symm
    obtain rfl := h p attr z hz hfresh
    obtain rfl := isUnknown_kind.mp hsame.symm
    have hunknown := halike.unknown
    cases x with
    | none => cases hunknown
    | some v => exact congrArg some hunknown

/-- Nothing of the old object is promised by a plan that replaces it exactly
when the mechanical plan replaces it already, or there is nothing to promise. -/
theorem promisesNothing_iff (hc : crates.Lawful) (hd : block.distinctNames = true) (config : Value) {req : PlanRequest}
    {a : Answer PlanResponse} (hblock : provider.resourceBlock req.typeName = some block)
    (ha : planResourceChange crates provider req = some a) (hreplace : a.response.requiresReplace ≠ []) :
    ∃ prior proposed mods dv, Drafted crates provider block req prior proposed mods ∧
      a.response.plannedState = some dv ∧
      (PromisesNothing crates block config mods dv ↔ ∀ p attr x, AttrAt block proposed p attr x →
        Fresh block config mods p attr → attr.writeOnly = false ∧
          (requiresReplace prior proposed block ≠ [] ∨ isNullSlot x = true ∨ x = some .unknown)) := by
  obtain ⟨prior, proposed, mods, dv, hdraft, hdv, henc⟩ := drafted_of_replaces hblock ha hreplace
  refine ⟨prior, proposed, mods, dv, hdraft, hdv, ?_⟩
  rw [promisesNothing_iff_base hc config henc]
  have hslot : ∀ {attr : AttributeSchema} {x : Option Value}, attr.isDerived = true →
      (plannedSlot (!(plan prior proposed block).requiresReplace.isEmpty) attr x = some .unknown ↔
        attr.writeOnly = false ∧
          (requiresReplace prior proposed block ≠ [] ∨ isNullSlot x = true ∨ x = some .unknown)) := by
    intro attr x h
    rw [plannedSlot_derived h, plan_requiresReplace]
    simp
  constructor
  · intro h p attr x hat hfresh
    exact (hslot hfresh.1).mp (h p attr _ ((attrAt_plan hd prior proposed).mpr ⟨x, hat, rfl⟩) hfresh)
  · intro h p attr y hat hfresh
    obtain ⟨x, hx, rfl⟩ := (attrAt_plan hd prior proposed).mp hat
    exact (hslot hfresh.1).mpr (h p attr x hx hfresh)

end

def serverBlock : Block :=
  ⟨[{ AttributeSchema.new "id" .string with computed := true },
    { AttributeSchema.new "size" .string with required := true }], []⟩

def serverFields (id : Value) (size : String) : Fields := .ofList [("id", id), ("size", .string size)]

def server (id : Value) (size : String) : Value := .object (serverFields id size)

theorem serverFields_id (id : Value) (size : String) : (serverFields id size).get? "id" = some id := by
  have hne : "id" ≠ "size" := by decide
  exact (OrdMap.get?_insert_of_ne _ _ hne).trans (OrdMap.get?_insert_self _ _ _)

def serverMp (size : String) : Mp :=
  .map [(.string (.text "id"), .string (.text "i-1")), (.string (.text "size"), .string (.text size))]

def serverState (size : String) : DynamicValue := ⟨MessagePack.write (serverMp size), []⟩

def resizing : DynResource := { failing with
  modifyPlan := fun _ _ _ => ⟨[], .returned (.ok ⟨[Path.ofName "size"], [], []⟩)⟩ }

def serverProvider : Provider where
  schema := ⟨[⟨"server", 0, serverBlock, none⟩], []⟩
  eager name := if name = "server" then some resizing else none
  eagerList _ := none
  configured := none

def resizeServer : PlanRequest where
  typeName := "server"
  priorState := some (serverState "small")
  proposedNewState := some (serverState "large")
  priorPrivate := []
  plannedPrivate := []

theorem decodeDynamic_server (size : String) :
    decodeDynamic Crates.real (some (serverState size)) serverBlock.ctyType = .ok (server (.string "i-1") size) := by
  rw [serverState, decodeDynamic_of_write Crates.real_lawful rfl]
  rfl

theorem encodeDynamic_server (size : String) :
    encodeDynamic Crates.real (server (.string "i-1") size) serverBlock.ctyType = .ok (serverState size) := by
  have hsorted : sortedByName [⟨"id", Ty.string, true⟩, ⟨"size", .string, false⟩] =
      [⟨"id", .string, true⟩, ⟨"size", .string, false⟩] := by
    apply List.mergeSort_of_pairwise
    simp
  have hmp : toMp Crates.real (server (.string "i-1") size) serverBlock.ctyType = .ok (serverMp size) := by
    change encodeObject Crates.real _ [⟨"id", Ty.string, true⟩, ⟨"size", .string, false⟩] = _
    have hsize : (serverFields (.string "i-1") size).get? "size" =
        some (.string size) := OrdMap.get?_insert_self _ _ _
    rw [encodeObject_eq, hsorted]
    simp only [List.mapM_cons, List.mapM_nil, serverFields_id, hsize]
    rfl
  rw [encodeDynamic, encodeMsgpack, hmp]
  rfl

def resizePlan : Plan := ⟨server (.string "i-1") "large", [toAttributePath (Path.ofName "size")]⟩

def resizeMods : PlanModifications := ⟨[Path.ofName "size"], [], []⟩

theorem planned_resizeServer : ∃ a, planResourceChange Crates.real serverProvider resizeServer = some a ∧
    a.response.requiresReplace = [toAttributePath (Path.ofName "size")] ∧
    a.response.plannedState = some (serverState "large") := by
  have hty : serverProvider.resourceCty "server" = some serverBlock.ctyType := rfl
  have hblock : serverProvider.resourceBlock "server" = some serverBlock := rfl
  have hhandler : serverProvider.resourceHandler "server" = some resizing := rfl
  have hplanned : planResourceChange Crates.real serverProvider resizeServer = some (answer
      (⟨[], [], .ok resizeMods⟩ : Dispatch PlanModifications)
      (respondPlan Crates.real serverProvider resizeServer serverBlock.ctyType resizePlan [] [])) := by
    simp only [planResourceChange, planDecoded, resizeServer, hty, hblock, hhandler, decodeDynamic_server]
    rfl
  refine ⟨_, hplanned, ?_, ?_⟩ <;> simp only [answer, respondPlan, resizePlan, encodeDynamic_server]

def resizeConfig : Value := server .null "large"

theorem drafted_resizeServer : Drafted Crates.real serverProvider serverBlock resizeServer
    (server (.string "i-1") "small") (server (.string "i-1") "large") resizeMods :=
  ⟨decodeDynamic_server "small", _, decodeDynamic_server "large", rfl, ⟨[], [], .ok resizeMods⟩, rfl, rfl⟩

/-- The server is to be replaced, and the plan promises its id. -/
theorem id_promised : ∃ a, planResourceChange Crates.real serverProvider resizeServer = some a ∧
    a.response.requiresReplace ≠ [] ∧ Drafted Crates.real serverProvider serverBlock resizeServer
      (server (.string "i-1") "small") (server (.string "i-1") "large") resizeMods ∧
    ∃ dv, a.response.plannedState = some dv ∧ ¬PromisesNothing Crates.real serverBlock resizeConfig resizeMods dv := by
  obtain ⟨a, ha, hreplace, hstate⟩ := planned_resizeServer
  refine ⟨a, ha, hreplace ▸ List.cons_ne_nil _ _, drafted_resizeServer, _, hstate, ?_⟩
  intro h
  have hat : ∀ id size, AttrAt serverBlock (server id size) [.attribute "id"]
      { AttributeSchema.new "id" .string with computed := true } (some id) := by
    intro id size
    exact attrAt_flat.mpr ⟨List.mem_cons_self, rfl, (serverFields_id id size).symm⟩
  have hnames : ¬resizeMods.Names [.attribute "id"] := by
    rintro (⟨k, hk, -⟩ | hmem)
    · cases hk
    · have hpath : Path.ofName "id" ≠ Path.ofName "size" := by decide
      exact hpath (List.mem_singleton.mp hmem)
  have hunknown := h _ (encodeDynamic_server "large") _ _ _ (hat (.string "i-1") "large")
    ⟨rfl, ⟨_, hat .null "large", rfl⟩, hnames⟩
  cases hunknown

theorem promisesNothing_resizeServer : ∃ a, planResourceChange Crates.real serverProvider resizeServer = some a ∧
    a.response.requiresReplace ≠ [] ∧ ∃ prior proposed mods dv,
      Drafted Crates.real serverProvider serverBlock resizeServer prior proposed mods ∧
      a.response.plannedState = some dv ∧
      (PromisesNothing Crates.real serverBlock resizeConfig mods dv ↔ ∀ p attr x, AttrAt serverBlock proposed p attr x →
        Fresh serverBlock resizeConfig mods p attr → attr.writeOnly = false ∧
          (requiresReplace prior proposed serverBlock ≠ [] ∨ isNullSlot x = true ∨ x = some .unknown)) := by
  obtain ⟨a, ha, hreplace, -⟩ := planned_resizeServer
  have hne : a.response.requiresReplace ≠ [] := hreplace ▸ List.cons_ne_nil _ _
  exact ⟨a, ha, hne, promisesNothing_iff Crates.real_lawful (by decide) resizeConfig rfl ha hne⟩

end Service

end TofuSdk
