import TofuSdk.Traverse

namespace TofuSdk

open ValueOf

theorem toAttributePath_injective : Function.Injective toAttributePath := by
  intro p q h
  have hstep : Function.Injective PathStep.toStep := by
    intro a b hab
    cases a <;> cases b <;> simp_all [PathStep.toStep]
  exact List.map_injective_iff.mpr hstep (congrArg AttributePath.steps h)

theorem plan_requiresReplace (prior proposed : Value) (block : Block) :
    (plan prior proposed block).requiresReplace = requiresReplace prior proposed block := by
  rw [plan]
  split_ifs with hnull
  · cases proposed with
    | null => cases prior <;> rfl
    | _ => cases hnull
  · rfl

theorem mem_requiresReplace {block : Block} {priorFields proposedFields : Fields} {path : AttributePath} :
    path ∈ (plan (.object priorFields) (.object proposedFields) block).requiresReplace ↔
      ∃ attr ∈ block.attributes, attr.forceNew = true ∧
        slotEq (priorFields.get? attr.name) (proposedFields.get? attr.name) = false ∧
        toAttributePath (Path.ofName attr.name) = path := by
  simp only [plan_requiresReplace, requiresReplace, List.mem_map, List.mem_filter, Bool.and_eq_true, Bool.not_eq_true',
    and_assoc]

theorem requiresReplace_eq_nil (block : Block) (prior proposed : Value)
    (h : ∀ priorFields proposedFields, prior = .object priorFields → proposed = .object proposedFields → False) :
    (plan prior proposed block).requiresReplace = [] := by
  rw [plan_requiresReplace]
  cases prior with
  | object priorFields =>
      cases proposed with
      | object proposedFields => exact (h _ _ rfl rfl).elim
      | _ => rfl
  | _ => rfl

theorem length_of_mem_requiresReplace {block : Block} {prior proposed : Value} {p : Path}
    (h : toAttributePath p ∈ (plan prior proposed block).requiresReplace) : p.length = 1 := by
  by_contra hlen
  apply List.not_mem_nil (a := toAttributePath p)
  rw [← requiresReplace_eq_nil block prior proposed]
  · exact h
  · rintro priorFields proposedFields rfl rfl
    obtain ⟨attr, -, -, -, hpath⟩ := mem_requiresReplace.mp h
    exact hlen (congrArg List.length (toAttributePath_injective hpath).symm)

/-- The planner honours `forceNew` exactly when no attribute inside a nested
block asks for it: it compares the top-level attributes only. -/
theorem forceNew_iff (block : Block) (prior proposed : Value) :
    (∀ p attr x y, AlignedAt block prior p attr (some x) → AlignedAt block proposed p attr (some y) →
      attr.forceNew = true → x.eq y = false →
      (plan prior proposed block).requiresReplace ≠ [] ∧
        toAttributePath p ∈ (plan prior proposed block).requiresReplace) ↔
    ∀ p attr x y, AlignedAt block prior p attr (some x) → AlignedAt block proposed p attr (some y) →
      attr.forceNew = true → x.eq y = false → p.length = 1 := by
  constructor
  · intro h p attr x y hx hy hforce hne
    exact length_of_mem_requiresReplace (h p attr x y hx hy hforce hne).2
  · intro h p attr x y hx hy hforce hne
    have hlen := h p attr x y hx hy hforce hne
    obtain ⟨priorFields, rfl⟩ := hx.object
    obtain ⟨proposedFields, rfl⟩ := hy.object
    obtain ⟨ha, rfl, hprior⟩ := hx.top hlen
    obtain ⟨-, -, hproposed⟩ := hy.top hlen
    have hslot : slotEq (priorFields.get? attr.name) (proposedFields.get? attr.name) = false := by
      rw [← hprior, ← hproposed]
      exact hne
    have hmem := mem_requiresReplace.mpr ⟨attr, ha, hforce, hslot, rfl⟩
    exact ⟨List.ne_nil_of_mem hmem, hmem⟩

def zone : AttributeSchema := { AttributeSchema.new "zone" .string with required := true, forceNew := true }

def zoneBlock : Block := ⟨[], [⟨"network", .single, ⟨[zone], []⟩, 0, 1⟩]⟩

def inZone (name : String) : Value :=
  .object (OrdMap.empty.insert "network" (.object (OrdMap.empty.insert "zone" (.string name))))

theorem alignedAt_inZone (name : String) : AlignedAt zoneBlock (inZone name)
    [.attribute "network", .attribute "zone"] zone (some (.string name)) := by
  refine .nested zoneBlock _ _ _ _ [] [.attribute "zone"] zone _ (List.mem_singleton_self _) (by decide)
    (OrdMap.get?_insert_self _ _ _) rfl (attrAt_object.mpr (Or.inl ?_))
  exact ⟨List.mem_singleton_self _, rfl, (OrdMap.get?_insert_self _ _ _).symm⟩

theorem forceNew_lost_in_nested_block :
    ¬ ∀ (block : Block) (prior proposed : Value), prior.isNull = false → proposed.isNull = false →
      ∀ p attr x y, AlignedAt block prior p attr (some x) → AlignedAt block proposed p attr (some y) →
        attr.forceNew = true → x.eq y = false →
        (plan prior proposed block).requiresReplace ≠ [] ∧
          toAttributePath p ∈ (plan prior proposed block).requiresReplace := by
  intro h
  have hreplace := h zoneBlock (inZone "a") (inZone "b") rfl rfl _ _ _ _ (alignedAt_inZone "a")
    (alignedAt_inZone "b") rfl (by decide)
  exact hreplace.1 (by decide)

end TofuSdk
