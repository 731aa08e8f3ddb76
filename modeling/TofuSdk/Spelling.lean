import TofuSdk.Quotient
import TofuSdk.Reflect

namespace TofuSdk

open ValueOf

/-- No quotient position lies beneath another. -/
def Canon.Apart (canon : Canon) : Prop :=
  ∀ path path' canonicalize canonicalize', QuotientAt canon path canonicalize → QuotientAt canon path' canonicalize' →
    path <+: path' → path = path'

def outline : Value → Value
  | .object fields => .object (fields.map fun _ => .null)
  | v => v

/-- What is kept differs from the proposed value in the spelling of quotients alone. -/
structure PicksSpelling (canon : Canon) (prior proposed kept : Value) : Prop where
  /-- A quotient position holds the prior or the proposed value, of one canonical form. -/
  verbatim : ∀ path canonicalize q, QuotientAt canon path canonicalize → valueAt proposed path = some q →
    ∃ r, valueAt kept path = some r ∧ (r = q ∨ valueAt prior path = some r) ∧
      (canonicalize.apply r).exact = (canonicalize.apply q).exact
  /-- A position that is neither above nor below one is unchanged. -/
  frame : ∀ path, (∀ path' canonicalize, QuotientAt canon path' canonicalize → ¬path' <+: path ∧ ¬path <+: path') →
    valueAt kept path = valueAt proposed path
  /-- So is every node above one, and its keys. -/
  keys : ∀ path, (∀ path' canonicalize, QuotientAt canon path' canonicalize → ¬path' <+: path) →
    (valueAt kept path).map outline = (valueAt proposed path).map outline

section

variable {canon nested : Canon} {name : String} {canonicalize : Canonicalizer} {p q : Value}
  {prior proposed : Option Value}

theorem quotientAt_cons {path : List String} : QuotientAt canon (name :: path) canonicalize ↔
    (path = [] ∧ canon.fields.get? name = some canonicalize) ∨
      ∃ nested, canon.blocks.get? name = some nested ∧ QuotientAt nested path canonicalize := by
  constructor
  · intro h
    cases h with
    | field _ _ _ h => exact .inl ⟨rfl, h⟩
    | block _ _ nested _ _ h hnested => exact .inr ⟨nested, h, hnested⟩
  · rintro (⟨rfl, h⟩ | ⟨nested, h, hnested⟩)
    · exact .field canon name canonicalize h
    · exact .block canon name nested path canonicalize h hnested

theorem valueAt_single {fields : Fields} : valueAt (.object fields) [name] = fields.get? name := by
  cases h : fields.get? name <;> simp [valueAt, h]

theorem keepPrior_of_no_quotient (h : ∀ path canonicalize, ¬QuotientAt canon path canonicalize) :
    keepPrior p q canon = q := by
  induction canon using Canon.induct generalizing p q with
  | mk fields blocks ih =>
      rcases Value.objects_or_not p q with ⟨priorFields, proposedFields, rfl, rfl⟩ | hnot
      · obtain ⟨kept, hkept, hget⟩ := keepPrior_object ⟨fields, blocks⟩ priorFields proposedFields
        rw [hkept]
        congr 1
        apply OrdMap.ext_get?
        intro name
        have hfield : fields.get? name = none := by
          cases hc : fields.get? name with
          | none => rfl
          | some canonicalize => exact absurd (.field _ name canonicalize hc) (h [name] canonicalize)
        rw [hget, keptSlot, hfield, Option.elim_none]
        cases hblock : blocks.get? name with
        | none => rfl
        | some nested =>
            have hnested : ∀ path canonicalize, ¬QuotientAt nested path canonicalize := fun path canonicalize hat =>
              h (name :: path) canonicalize (.block _ name nested path canonicalize hblock hat)
            rw [Option.elim_some]
            cases priorFields.get? name with
            | none => rfl
            | some a => cases proposedFields.get? name <;> simp [keptBlock, ih name nested hblock hnested]
      · exact keepPrior_of_not_object _ hnot

theorem Canon.Apart.block (h : canon.Apart) (hblock : canon.blocks.get? name = some nested) : nested.Apart := by
  intro path path' canonicalize canonicalize' hat hat' hpre
  have hcons := h (name :: path) (name :: path') canonicalize canonicalize' (.block _ _ _ _ _ hblock hat)
    (.block _ _ _ _ _ hblock hat') ((List.prefix_cons_inj name).mpr hpre)
  exact (List.cons.inj hcons).2

theorem Canon.Apart.field_eq_none (h : canon.Apart) (hblock : canon.blocks.get? name = some nested)
    {path : List String} (hnested : QuotientAt nested path canonicalize) : canon.fields.get? name = none := by
  cases hfield : canon.fields.get? name with
  | none => rfl
  | some canonicalize' =>
      have heq := h [name] (name :: path) _ _ (.field _ _ _ hfield) (.block _ _ _ _ _ hblock hnested)
        ((List.prefix_cons_inj name).mpr List.nil_prefix)
      exact absurd (List.cons.inj heq).2.symm hnested.ne_nil

theorem Canon.apart_iff : canon.Apart ↔
    (∀ name nested path canonicalize, canon.blocks.get? name = some nested → QuotientAt nested path canonicalize →
      canon.fields.get? name = none) ∧
    ∀ name nested, canon.blocks.get? name = some nested → nested.Apart := by
  constructor
  · exact fun h => ⟨fun _ _ _ _ hblock hat => h.field_eq_none hblock hat, fun _ _ hblock => h.block hblock⟩
  · rintro ⟨hfields, hblocks⟩ path path' canonicalize canonicalize' hat hat' hpre
    cases hat with
    | field _ name _ hfield =>
        obtain ⟨rest, rfl⟩ := hpre
        obtain ⟨hnil, -⟩ | ⟨nested, hblock, hnested⟩ := quotientAt_cons.mp hat'
        · exact congrArg (name :: ·) hnil.symm
        · rw [hfields name nested _ _ hblock hnested] at hfield
          cases hfield
    | block _ name nested path _ hblock hnested =>
        obtain ⟨rest, rfl⟩ := hpre
        obtain ⟨hnil, -⟩ | ⟨nested', hblock', hnested'⟩ := quotientAt_cons.mp hat'
        · exact absurd (List.append_eq_nil_iff.mp hnil).1 hnested.ne_nil
        · obtain rfl : nested = nested' := Option.some.inj (hblock.symm.trans hblock')
          exact congrArg (name :: ·) (hblocks name nested hblock _ _ _ _ hnested hnested' (List.prefix_append ..))

theorem Canon.Apart.withField (h : canon.Apart) (hfresh : canon.blocks.get? name = none) :
    (canon.withField name canonicalize).Apart := by
  obtain ⟨hfields, hblocks⟩ := Canon.apart_iff.mp h
  refine Canon.apart_iff.mpr ⟨fun name' nested path canonicalize' hblock hat => ?_, hblocks⟩
  have hne : name' ≠ name := by
    rintro rfl
    rw [Canon.withField, hfresh] at hblock
    cases hblock
  rw [Canon.withField, OrdMap.get?_insert_of_ne _ _ hne]
  exact hfields name' nested path canonicalize' hblock hat

theorem Canon.Apart.withBlock (h : canon.Apart) (hnested : nested.Apart) (hfresh : canon.fields.get? name = none) :
    (⟨canon.fields, canon.blocks.insert name nested⟩ : Canon).Apart := by
  obtain ⟨hfields, hblocks⟩ := Canon.apart_iff.mp h
  refine Canon.apart_iff.mpr ⟨fun name' nested' path canonicalize' hblock hat => ?_, fun name' nested' hblock => ?_⟩
  · by_cases hname : name' = name
    · rwa [hname]
    · rw [OrdMap.get?_insert_of_ne _ _ hname] at hblock
      exact hfields name' nested' path canonicalize' hblock hat
  · rw [OrdMap.get?_insert] at hblock
    split_ifs at hblock
    · rwa [← Option.some.inj hblock]
    · exact hblocks name' nested' hblock

theorem keptSlot_field (h : canon.Apart) (hfield : canon.fields.get? name = some canonicalize) :
    keptSlot canon name prior proposed = keptField prior canonicalize proposed := by
  rw [keptSlot, hfield, Option.elim_some]
  cases hblock : canon.blocks.get? name with
  | none => rfl
  | some nested =>
      have hnone : ∀ path canonicalize', ¬QuotientAt nested path canonicalize' := by
        intro path canonicalize' hat
        rw [h.field_eq_none hblock hat] at hfield
        cases hfield
      rw [Option.elim_some]
      cases prior with
      | none => rfl
      | some p => cases keptField (some p) canonicalize proposed <;> simp [keptBlock, keepPrior_of_no_quotient hnone]

theorem keptSlot_block (hfield : canon.fields.get? name = none) (hblock : canon.blocks.get? name = some nested) :
    keptSlot canon name prior proposed = keptBlock prior nested proposed := by
  rw [keptSlot, hfield, hblock, Option.elim_some, Option.elim_none]

theorem keptSlot_other (hfield : canon.fields.get? name = none) (hblock : canon.blocks.get? name = none) :
    keptSlot canon name prior proposed = proposed := by
  rw [keptSlot, hfield, hblock, Option.elim_none, Option.elim_none]

theorem keptField_cases (prior : Option Value) (canonicalize : Canonicalizer) (proposed : Option Value) :
    keptField prior canonicalize proposed = proposed ∨
    ∃ p q, prior = some p ∧ proposed = some q ∧ (canonicalize.apply p).eq (canonicalize.apply q) = true ∧
      keptField prior canonicalize proposed = some p := by
  cases prior with
  | none => exact .inl rfl
  | some p =>
      cases proposed with
      | none => exact .inl rfl
      | some q =>
          cases heq : (canonicalize.apply p).eq (canonicalize.apply q) with
          | false => exact .inl (by simp [keptField, heq])
          | true => exact .inr ⟨p, q, rfl, rfl, heq, by simp [keptField, heq]⟩

theorem keptField_keptField : keptField prior canonicalize (keptField prior canonicalize proposed) =
    keptField prior canonicalize proposed := by
  obtain h | ⟨p, q, rfl, rfl, heq, h⟩ := keptField_cases prior canonicalize proposed
  · rw [h, h]
  · rw [h, keptField, ite_self]

theorem isSome_keptSlot : (keptSlot canon name prior proposed).isSome = proposed.isSome := by
  have hfield : ∀ canonicalize, (keptField prior canonicalize proposed).isSome = proposed.isSome := by
    intro canonicalize
    obtain h | ⟨p, q, rfl, rfl, -, h⟩ := keptField_cases prior canonicalize proposed
    · rw [h]
    · rw [h]
      rfl
  have hblock : ∀ nested kept, (keptBlock prior nested kept).isSome = kept.isSome := by
    intro nested kept
    cases prior with
    | none => rfl
    | some p => exact Option.isSome_map
  rw [keptSlot]
  cases canon.blocks.get? name with
  | none =>
      cases canon.fields.get? name with
      | none => rfl
      | some canonicalize => exact hfield canonicalize
  | some nested =>
      rw [Option.elim_some, hblock]
      cases canon.fields.get? name with
      | none => rfl
      | some canonicalize => exact hfield canonicalize

theorem exact_eq_of_eq {v w : Value} (h : v.eq w = true) : v.exact = w.exact :=
  (Value.eq_iff_exact (Value.isNaNFree_of_eq h) (Value.isNaNFree_of_eq (Value.eq_comm v w ▸ h))).mp h

end

namespace PicksSpelling

variable {canon : Canon} {prior proposed : Value} {priorFields proposedFields kept : Fields}

theorem refl : PicksSpelling canon prior proposed proposed :=
  ⟨fun _ _ q _ hq => ⟨q, hq, .inl rfl, rfl⟩, fun _ _ => rfl, fun _ _ => rfl⟩

theorem kept_cases {name : String} (hfield : canon.fields.get? name = none)
    (hkept : kept.get? name = keptSlot canon name (priorFields.get? name) (proposedFields.get? name)) :
    kept.get? name = proposedFields.get? name ∨
      ∃ nested a b, canon.blocks.get? name = some nested ∧ proposedFields.get? name = some b ∧
        kept.get? name = some (keepPrior a b nested) := by
  cases hblock : canon.blocks.get? name with
  | none => exact .inl (hkept.trans (keptSlot_other hfield hblock))
  | some nested =>
      rw [keptSlot_block hfield hblock] at hkept
      cases ha : priorFields.get? name with
      | none =>
          rw [ha] at hkept
          exact .inl hkept
      | some a =>
          rw [ha] at hkept
          cases hb : proposedFields.get? name with
          | none =>
              rw [hb] at hkept
              exact .inl hkept
          | some b =>
              rw [hb] at hkept
              exact .inr ⟨nested, a, b, rfl, rfl, hkept⟩

theorem field_eq_none {name : String} {path : List String}
    (hpath : ∀ path' canonicalize, QuotientAt canon path' canonicalize → ¬path' <+: name :: path) :
    canon.fields.get? name = none := by
  cases hfield : canon.fields.get? name with
  | none => rfl
  | some canonicalize =>
      exact absurd ((List.prefix_cons_inj name).mpr List.nil_prefix) (hpath [name] canonicalize (.field _ _ _ hfield))

section

variable (hkept : ∀ name, kept.get? name = keptSlot canon name (priorFields.get? name) (proposedFields.get? name))
  (hblocks : ∀ name nested a b, canon.blocks.get? name = some nested → PicksSpelling nested a b (keepPrior a b nested))

include hkept hblocks

theorem verbatim_object (h : canon.Apart) {path : List String} {canonicalize : Canonicalizer} {q : Value}
    (hat : QuotientAt canon path canonicalize) (hq : valueAt (.object proposedFields) path = some q) :
    ∃ r, valueAt (.object kept) path = some r ∧ (r = q ∨ valueAt (.object priorFields) path = some r) ∧
      (canonicalize.apply r).exact = (canonicalize.apply q).exact := by
  cases path with
  | nil => exact absurd rfl hat.ne_nil
  | cons name path =>
      obtain ⟨rfl, hfield⟩ | ⟨nested, hblock, hnested⟩ := quotientAt_cons.mp hat
      · rw [valueAt_single] at hq
        rw [valueAt_single, valueAt_single, hkept, keptSlot_field h hfield]
        obtain hsame | ⟨a, b, ha, hb, heq, hsame⟩ := keptField_cases (priorFields.get? name) canonicalize
          (proposedFields.get? name)
        · exact ⟨q, hsame.trans hq, .inl rfl, rfl⟩
        · obtain rfl : b = q := Option.some.inj (hb.symm.trans hq)
          exact ⟨a, hsame, .inr ha, exact_eq_of_eq heq⟩
      · obtain ⟨fields, b, hobject, hb, hq⟩ := valueAt_cons hq
        obtain rfl := ValueOf.object.inj hobject
        have hchild := hkept name
        rw [keptSlot_block (h.field_eq_none hblock hnested) hblock, hb] at hchild
        cases ha : priorFields.get? name with
        | none =>
            rw [ha] at hchild
            exact ⟨q, (valueAt_object path hchild).trans hq, .inl rfl, rfl⟩
        | some a =>
            rw [ha] at hchild
            rw [valueAt_object path hchild, valueAt_object path ha]
            exact (hblocks name nested a b hblock).verbatim path canonicalize q hnested hq

theorem frame_object (hsome : ∃ path canonicalize, QuotientAt canon path canonicalize) {path : List String}
    (hpath : ∀ path' canonicalize, QuotientAt canon path' canonicalize → ¬path' <+: path ∧ ¬path <+: path') :
    valueAt (.object kept) path = valueAt (.object proposedFields) path := by
  cases path with
  | nil =>
      obtain ⟨path', canonicalize, hat⟩ := hsome
      exact absurd List.nil_prefix (hpath path' canonicalize hat).2
  | cons name path =>
      have hfield := field_eq_none fun path' canonicalize hat => (hpath path' canonicalize hat).1
      obtain hsame | ⟨nested, a, b, hblock, hb, hsame⟩ := kept_cases hfield (hkept name)
      · rw [valueAt, valueAt, hsame]
      · rw [valueAt_object path hsame, valueAt_object path hb]
        apply (hblocks name nested a b hblock).frame
        intro path' canonicalize hat
        have hcons := hpath (name :: path') canonicalize (.block _ _ _ _ _ hblock hat)
        rwa [List.prefix_cons_inj, List.prefix_cons_inj] at hcons

theorem keys_object {path : List String}
    (hpath : ∀ path' canonicalize, QuotientAt canon path' canonicalize → ¬path' <+: path) :
    (valueAt (.object kept) path).map outline = (valueAt (.object proposedFields) path).map outline := by
  cases path with
  | nil =>
      rw [valueAt, valueAt, Option.map_some, Option.map_some, outline, outline]
      congr 2
      apply OrdMap.ext_get?
      intro name
      have hsome : (keptSlot canon name (priorFields.get? name) (proposedFields.get? name)).isSome =
          (proposedFields.get? name).isSome := isSome_keptSlot
      rw [← hkept, Bool.eq_iff_iff, Option.isSome_iff_exists, Option.isSome_iff_exists] at hsome
      rw [OrdMap.get?_map, OrdMap.get?_map]
      apply Option.ext
      intro v
      rw [Option.map_eq_some_iff, Option.map_eq_some_iff]
      simpa using fun _ => hsome
  | cons name path =>
      have hfield := field_eq_none hpath
      obtain hsame | ⟨nested, a, b, hblock, hb, hsame⟩ := kept_cases hfield (hkept name)
      · rw [valueAt, valueAt, hsame]
      · rw [valueAt_object path hsame, valueAt_object path hb]
        apply (hblocks name nested a b hblock).keys
        intro path' canonicalize hat
        have hcons := hpath (name :: path') canonicalize (.block _ _ _ _ _ hblock hat)
        rwa [List.prefix_cons_inj] at hcons

theorem object (h : canon.Apart) (hsome : ∃ path canonicalize, QuotientAt canon path canonicalize) :
    PicksSpelling canon (.object priorFields) (.object proposedFields) (.object kept) where
  verbatim _ _ _ hat hq := verbatim_object hkept hblocks h hat hq
  frame _ hpath := frame_object hkept hblocks hsome hpath
  keys _ hpath := keys_object hkept hblocks hpath

end

end PicksSpelling

theorem keepPrior_keepPrior {canon : Canon} (h : canon.Apart) (prior proposed : Value) :
    keepPrior prior (keepPrior prior proposed canon) canon = keepPrior prior proposed canon := by
  induction canon using Canon.induct generalizing prior proposed with
  | mk fields blocks ih =>
      rcases Value.objects_or_not prior proposed with ⟨priorFields, proposedFields, rfl, rfl⟩ | hnot
      · obtain ⟨kept, hkept, hget⟩ := keepPrior_object ⟨fields, blocks⟩ priorFields proposedFields
        obtain ⟨again, hagain, hget'⟩ := keepPrior_object ⟨fields, blocks⟩ priorFields kept
        rw [hkept, hagain]
        congr 1
        apply OrdMap.ext_get?
        intro name
        rw [hget', hget]
        cases hfield : fields.get? name with
        | some canonicalize => rw [keptSlot_field h hfield, keptSlot_field h hfield, keptField_keptField]
        | none =>
            cases hblock : blocks.get? name with
            | none => rw [keptSlot_other hfield hblock, keptSlot_other hfield hblock]
            | some nested =>
                rw [keptSlot_block hfield hblock, keptSlot_block hfield hblock]
                cases priorFields.get? name with
                | none => rfl
                | some a =>
                    cases proposedFields.get? name with
                    | none => rfl
                    | some b => exact congrArg some (ih name nested hblock (h.block hblock) a b)
      · have hself : keepPrior prior proposed ⟨fields, blocks⟩ = proposed := keepPrior_of_not_object _ hnot
        rw [hself, hself]

theorem picksSpelling_keepPrior {canon : Canon} (h : canon.Apart) (prior proposed : Value) :
    PicksSpelling canon prior proposed (keepPrior prior proposed canon) := by
  induction canon using Canon.induct generalizing prior proposed with
  | mk fields blocks ih =>
      by_cases hsome : ∃ path canonicalize, QuotientAt ⟨fields, blocks⟩ path canonicalize
      · rcases Value.objects_or_not prior proposed with ⟨priorFields, proposedFields, rfl, rfl⟩ | hnot
        · obtain ⟨kept, hkept, hget⟩ := keepPrior_object ⟨fields, blocks⟩ priorFields proposedFields
          rw [hkept]
          exact .object hget (fun name nested a b hblock => ih name nested hblock (h.block hblock) a b) h hsome
        · rw [keepPrior_of_not_object _ hnot]
          exact .refl
      · push Not at hsome
        rw [keepPrior_of_no_quotient hsome]
        exact .refl

/-- Semantic equality picks the old spelling of a quotient where the two have one
canonical form, changes nothing else, and is done at once. -/
theorem keepPrior_picks {canon : Canon} (h : canon.Apart) (prior proposed : Value) :
    PicksSpelling canon prior proposed (keepPrior prior proposed canon) ∧
      keepPrior prior (keepPrior prior proposed canon) canon = keepPrior prior proposed canon :=
  ⟨picksSpelling_keepPrior h prior proposed, keepPrior_keepPrior h prior proposed⟩

theorem harvestShape_apart {α : Type} (shape : Shape α) (hd : shape.distinctNames = true) :
    shape.harvestShape.Apart := by
  have hnew : Canon.new.Apart :=
    Canon.apart_iff.mpr ⟨fun _ _ _ _ hblock => (by cases hblock), fun _ _ hblock => by cases hblock⟩
  have hboth : shape.harvestShape.Apart ∧ ∀ nested, shape.harvestSingleStruct = some nested → nested.Apart := by
    induction shape using Shape.rec (motive_2 := fun _ fields => ∀ canon : Canon, canon.Apart → fields.keys.Nodup →
        Shape.distinctFields fields = true →
        (∀ k ∈ fields.keys, canon.fields.get? k = none ∧ canon.blocks.get? k = none) →
        (Shape.harvestFields fields canon).Apart) with
    | scalar | list | set | map | tfValue | proxy | other => exact ⟨hnew, fun _ h => by cases h⟩
    | option t ih => exact ⟨hnew, (ih hd).2⟩
    | struct fields ih =>
        obtain ⟨hnodup, hfields⟩ := Bool.and_eq_true _ _ ▸ hd
        have hharvest := ih Canon.new hnew (of_decide_eq_true hnodup) hfields fun _ _ => ⟨rfl, rfl⟩
        refine ⟨hharvest, fun nested h => ?_⟩
        exact Option.some.inj h ▸ hharvest
    | formatProxy shape ih => exact ih hd
    | nil =>
        rename_i canon h _ _ _
        exact h
    | cons field shape rest ih ihrest =>
        rename_i canon h hnodup hdistinct hfresh
        obtain ⟨hkey, hnodup⟩ := List.nodup_cons.mp hnodup
        obtain ⟨hshape, hrest⟩ := Bool.and_eq_true _ _ ▸ hdistinct
        obtain ⟨⟨hfield, hblock⟩, hfresh⟩ := List.forall_mem_cons.mp hfresh
        have hne : ∀ k ∈ rest.keys, k ≠ field.key := fun k hk heq => hkey (heq ▸ hk)
        rw [Shape.harvestFields]
        split_ifs
        · apply ihrest _ (h.withField hblock) hnodup hrest
          intro k hk
          rw [Canon.withField, OrdMap.get?_insert_of_ne _ _ (hne k hk)]
          exact hfresh k hk
        · cases hs : shape.harvestSingleStruct with
          | none => exact ihrest canon h hnodup hrest hfresh
          | some nested =>
              simp only []
              split_ifs
              · exact ihrest canon h hnodup hrest hfresh
              · apply ihrest _ (h.withBlock ((ih hshape).2 nested hs) hfield) hnodup hrest
                intro k hk
                rw [OrdMap.get?_insert_of_ne _ _ (hne k hk)]
                exact hfresh k hk
  exact hboth.1

def zoneId : Shape String := .proxy (.scalar .string) (fun s => .ok (if s = "EU" then "eu" else s)) .ok

def networkModel : Shape ((String × (Int64 × Unit)) × Unit) :=
  .struct (.cons { name := "network" }
    (.struct (.cons { name := "zone" } zoneId (.cons { name := "mtu" } (.scalar .i64) .nil))) .nil)

def network (zone : String) (mtu : Int64) : Value :=
  .object (OrdMap.ofList [("network", .object (OrdMap.ofList [("zone", .string zone), ("mtu", .number (.i64 mtu))]))])

theorem network_kept : PicksSpelling networkModel.harvestShape (network "eu" 1500) (network "EU" 9000)
    (keepPrior (network "eu" 1500) (network "EU" 9000) networkModel.harvestShape) ∧
      keepPrior (network "eu" 1500) (keepPrior (network "eu" 1500) (network "EU" 9000) networkModel.harvestShape)
        networkModel.harvestShape = keepPrior (network "eu" 1500) (network "EU" 9000) networkModel.harvestShape := by
  apply keepPrior_picks
  exact harvestShape_apart networkModel (by decide)

/-- With a canonicalizer for the block beside the one for its field, the block
comes out as neither. -/
theorem network_mixed : ¬PicksSpelling (networkModel.harvestShape.withField "network" (.custom id))
    (network "eu" 1500) (network "EU" 9000)
    (keepPrior (network "eu" 1500) (network "EU" 9000)
    (networkModel.harvestShape.withField "network" (.custom id))) := by
  intro h
  obtain ⟨r, hr, hpicked, -⟩ := h.verbatim ["network"] (.custom id) _ (.field _ _ _ rfl) rfl
  -- the zone is the prior one, the rest of the block the proposed one
  have hzone : (some r).bind (valueAt · ["zone"]) = some (.string "eu") := hr ▸ rfl
  have hmtu : (some r).bind (valueAt · ["mtu"]) = some (.number (.i64 9000)) := hr ▸ rfl
  obtain rfl | hprior := hpicked
  · exact absurd (ValueOf.string.inj (Option.some.inj hzone)) (by decide : "EU" ≠ "eu")
  · rw [← hprior] at hmtu
    exact absurd (Number.i64.inj (ValueOf.number.inj (Option.some.inj hmtu))) (by decide : (1500 : Int64) ≠ 9000)

end TofuSdk
