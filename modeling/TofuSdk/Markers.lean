import TofuSdk.Defaults

namespace TofuSdk

/-- The markers of a field that say how its value is handled. -/
inductive Marker
  | writeOnly | sensitive | computed | forceNew
deriving DecidableEq

namespace Marker

def onField : Marker → Field → Bool
  | writeOnly, field => field.attrs.writeOnly
  | sensitive, field => field.attrs.sensitive
  | computed, field => field.attrs.computed
  | forceNew, field => field.attrs.forceNew

def onAttribute : Marker → AttributeSchema → Bool
  | writeOnly, attr => attr.writeOnly
  | sensitive, attr => attr.sensitive
  | computed, attr => attr.computed
  | forceNew, attr => attr.forceNew

end Marker

/-- Where a field of a model stands in its block: it is an attribute, a nested
block, or a member of the type of an attribute. -/
inductive Placement
  | own (attr : AttributeSchema)
  | nested (block : Block)
  | member (attr : AttributeSchema)

/-- A marker shows on the attribute, or on every attribute beneath the block.
The members of a type have no flags; `covers` is whether the attribute that
they are members of may show the marker for them. -/
def Placement.Shows (covers : Bool) (marker : Marker) : Placement → Prop
  | .own attr => marker.onAttribute attr = true
  | .nested block => ∀ attr, block.HasAttribute attr → marker.onAttribute attr = true
  | .member attr => covers = true ∧ marker.onAttribute attr = true

namespace Shape

mutual

def allFields {α : Type} (shape : Shape α) : List Field :=
  match shape with
  | .scalar _ => []
  | .option t => allFields t
  | .list elem _ => allFields elem
  | .set elem _ => allFields elem
  | .map _ val _ => allFields val
  | .struct fields => fieldsOf fields
  | .tfValue known => allFields known
  | .proxy proxied _ _ => allFields proxied
  | .formatProxy shape => allFields shape
  | .other _ => []
termination_by structural shape

def fieldsOf {φ : Type} (fields : StructFields φ) : List Field :=
  match fields with
  | .nil => []
  | .cons field shape rest => field :: (allFields shape ++ fieldsOf rest)
termination_by structural fields

end

mutual

def attributeFields {α : Type} (shape : Shape α) : List Field :=
  match shape with
  | .option t => attributeFields t
  | .list elem _ => attributeFields elem
  | .set elem _ => attributeFields elem
  | .map _ val _ => attributeFields val
  | .struct fields => attributesOf fields
  | .formatProxy shape => attributeFields shape
  | _ => []
termination_by structural shape

def attributesOf {φ : Type} (fields : StructFields φ) : List Field :=
  match fields with
  | .nil => []
  | .cons field shape rest =>
      if field.attrs.block then attributeFields shape ++ attributesOf rest else field :: attributesOf rest
termination_by structural fields

end

mutual

/-- Each field of a model with its place in the block that was made of it: the
attributes, and the nested blocks, are in the order of their fields. -/
def placements {α : Type} (shape : Shape α) (block : Block) : List (Field × Placement) :=
  match shape with
  | .option t => placements t block
  | .list elem _ => placements elem block
  | .set elem _ => placements elem block
  | .map _ val _ => placements val block
  | .struct fields => placementsOf fields block.attributes block.nestedBlocks
  | .formatProxy shape => placements shape block
  | _ => []
termination_by structural shape

def placementsOf {φ : Type} (fields : StructFields φ) (attributes : List AttributeSchema)
    (nestedBlocks : List NestedBlock) : List (Field × Placement) :=
  match fields with
  | .nil => []
  | .cons field shape rest =>
      if field.attrs.block then
        match nestedBlocks with
        | nested :: nestedBlocks =>
            (field, .nested nested.block) ::
              (placements shape nested.block ++ placementsOf rest attributes nestedBlocks)
        | [] => []
      else
        match attributes with
        | attr :: attributes =>
            (field, .own attr) ::
              ((allFields shape).map (·, .member attr) ++ placementsOf rest attributes nestedBlocks)
        | [] => []
termination_by structural fields

end

mutual

/-- No marked field is a member of the type of an attribute, unless that may
show the marker and does, and each marker of a block stands on every attribute
beneath it too. -/
def KeepsMarkers {α : Type} (covers : Bool) (shape : Shape α) : Prop :=
  match shape with
  | .option t => KeepsMarkers covers t
  | .list elem _ => KeepsMarkers covers elem
  | .set elem _ => KeepsMarkers covers elem
  | .map _ val _ => KeepsMarkers covers val
  | .struct fields => KeepMarkers covers fields
  | .formatProxy shape => KeepsMarkers covers shape
  | _ => True
termination_by structural shape

def KeepMarkers {φ : Type} (covers : Bool) (fields : StructFields φ) : Prop :=
  match fields with
  | .nil => True
  | .cons field shape rest =>
      (if field.attrs.block then
        (∀ marker : Marker, marker.onField field = true →
          ∀ inner ∈ attributeFields shape, marker.onField inner = true) ∧
          KeepsMarkers covers shape
      else ∀ marker : Marker, ∀ inner ∈ allFields shape, marker.onField inner = true →
        covers = true ∧ marker.onField field = true) ∧ KeepMarkers covers rest
termination_by structural fields

end

theorem onAttribute_of_field {α : Type} {field : Field} {shape : Shape α} {attr : AttributeSchema}
    (h : attributeFromField field shape = .ok attr) (marker : Marker) :
    marker.onAttribute attr = marker.onField field := by
  rw [attributeFromField] at h
  obtain ⟨ty, -, h⟩ := Outcome.bind_eq_ok.mp h
  split_ifs at h
  obtain rfl := Except.ok.inj h
  cases marker <;> rfl

section

variable {α φ : Type} {field : Field} (shape : Shape α) (rest : StructFields φ)

theorem placementsOf_attr (h : field.attrs.block = false) (attr : AttributeSchema) (attributes : List AttributeSchema)
    (nestedBlocks : List NestedBlock) : placementsOf (.cons field shape rest) (attr :: attributes) nestedBlocks =
      (field, .own attr) :: ((allFields shape).map (·, .member attr) ++ placementsOf rest attributes nestedBlocks) := by
  simp only [placementsOf, h, Bool.false_eq_true, if_false]

theorem placementsOf_nested (h : field.attrs.block = true) (attributes : List AttributeSchema) (nested : NestedBlock)
    (nestedBlocks : List NestedBlock) : placementsOf (.cons field shape rest) attributes (nested :: nestedBlocks) =
      (field, .nested nested.block) ::
        (placements shape nested.block ++ placementsOf rest attributes nestedBlocks) := by
  simp only [placementsOf, h, if_true]

end

theorem placements_fields {α : Type} {shape : Shape α} {block : Block} (h : shape.blockFromShape = .ok block) :
    (placements shape block).map Prod.fst = allFields shape := by
  refine (reflect_induct (P := fun _ shape block => (placements shape block).map Prod.fst = allFields shape)
    (Q := fun _ fields block =>
      (placementsOf fields block.attributes block.nestedBlocks).map Prod.fst = fieldsOf fields)
    (fun _ _ _ ih => ih) (fun _ _ _ _ _ ih => ih) (fun _ _ _ _ _ ih => ih) (fun _ _ _ _ _ _ _ ih => ih)
    (fun _ _ _ ih => ih) (fun _ _ _ ih => ih) rfl ?_ ?_ shape).1 block h
  · intro α φ field shape rest made others hblock _ ih
    rw [placementsOf_attr shape rest hblock, fieldsOf, List.map_cons, List.map_append, ih, List.map_map]
    exact congrArg (fun l => field :: (l ++ fieldsOf rest)) (List.map_id _)
  · intro α φ field shape rest nested others hblock _ ih ihs
    rw [placementsOf_nested shape rest hblock, fieldsOf, List.map_cons, List.map_append, ih, ihs]

/-- A marker shows on all attributes of a block exactly when it stands on all
fields that they are made from. -/
def Throughout (marker : Marker) (block : Block) (fields : List Field) : Prop :=
  (∀ attr, block.HasAttribute attr → marker.onAttribute attr = true) ↔ ∀ field ∈ fields, marker.onField field = true

/-- What holds of a marker on all attributes of a block holds of it on all
fields that they are made from. -/
theorem forall_onAttribute_iff (marker : Marker) (P : Bool → Prop) {α : Type} (shape : Shape α) :
    (∀ block, shape.blockFromShape = .ok block →
      ((∀ attr, block.HasAttribute attr → P (marker.onAttribute attr)) ↔
        ∀ field ∈ attributeFields shape, P (marker.onField field))) ∧
    ∀ name peeled nested, nestedBlock name peeled shape = .ok nested →
      ((∀ attr, nested.block.HasAttribute attr → P (marker.onAttribute attr)) ↔
        ∀ field ∈ attributeFields shape, P (marker.onField field)) := by
  refine reflect_induct
    (P := fun _ shape block => (∀ attr, block.HasAttribute attr → P (marker.onAttribute attr)) ↔
      ∀ field ∈ attributeFields shape, P (marker.onField field))
    (Q := fun _ fields block => (∀ attr, block.HasAttribute attr → P (marker.onAttribute attr)) ↔
      ∀ field ∈ attributesOf fields, P (marker.onField field))
    (fun _ _ _ ih => ih) (fun _ _ _ _ _ ih => ih) (fun _ _ _ _ _ ih => ih) (fun _ _ _ _ _ _ _ ih => ih)
    (fun _ _ _ ih => ih) (fun _ _ _ ih => ih) ?_ ?_ ?_ shape
  · refine iff_of_true ?_ (List.forall_mem_nil _)
    intro attr hattr
    cases hattr <;> contradiction
  · intro α φ field shape rest made others hblock hmade ih
    rw [Block.forall_hasAttribute_attr, onAttribute_of_field hmade, attributesOf,
      if_neg (by rw [hblock]; exact Bool.false_ne_true), List.forall_mem_cons, ih]
  · intro α φ field shape rest nested others hblock _ hinner ih
    rw [Block.forall_hasAttribute_nested, attributesOf, if_pos hblock, List.forall_mem_append, hinner, ih]

theorem throughout_nested {α : Type} {shape : Shape α} {name : String} {peeled : Bool} {nested : NestedBlock}
    (h : nestedBlock name peeled shape = .ok nested) (marker : Marker) :
    Throughout marker nested.block (attributeFields shape) :=
  (forall_onAttribute_iff marker (· = true) shape).2 name peeled nested h

/-- Every marker shows where it should, for the places listed. -/
def AllShow (covers : Bool) (places : List (Field × Placement)) : Prop :=
  ∀ p ∈ places, ∀ marker : Marker, marker.onField p.1 = true → p.2.Shows covers marker

section

variable {covers : Bool} {field : Field} {place : Placement} {places others : List (Field × Placement)}

theorem allShow_cons : AllShow covers ((field, place) :: places) ↔
    (∀ marker : Marker, marker.onField field = true → place.Shows covers marker) ∧ AllShow covers places :=
  List.forall_mem_cons

theorem allShow_append : AllShow covers (places ++ others) ↔ AllShow covers places ∧ AllShow covers others :=
  List.forall_mem_append

theorem allShow_members {attr : AttributeSchema} {members : List Field} :
    AllShow covers (members.map (·, .member attr)) ↔ ∀ marker : Marker, ∀ inner ∈ members,
      marker.onField inner = true → covers = true ∧ marker.onAttribute attr = true := by
  rw [AllShow, List.forall_mem_map]
  exact ⟨fun h marker inner hmem hmark => h inner hmem marker hmark,
    fun h inner hmem marker hmark => h marker inner hmem hmark⟩

end

theorem allShow_placements {α : Type} {shape : Shape α} {block : Block} (covers : Bool)
    (h : shape.blockFromShape = .ok block) : AllShow covers (placements shape block) ↔ shape.KeepsMarkers covers := by
  refine (reflect_induct
    (P := fun _ shape block => AllShow covers (placements shape block) ↔ shape.KeepsMarkers covers)
    (Q := fun _ fields block =>
      AllShow covers (placementsOf fields block.attributes block.nestedBlocks) ↔ KeepMarkers covers fields)
    (fun _ _ _ ih => ih) (fun _ _ _ _ _ ih => ih) (fun _ _ _ _ _ ih => ih) (fun _ _ _ _ _ _ _ ih => ih)
    (fun _ _ _ ih => ih) (fun _ _ _ ih => ih) ?_ ?_ ?_ shape).1 block h
  · exact iff_of_true (List.forall_mem_nil _) trivial
  · intro α φ field shape rest made others hblock hmade ih
    rw [placementsOf_attr shape rest hblock, allShow_cons, allShow_append, ih, KeepMarkers,
      if_neg (by rw [hblock]; exact Bool.false_ne_true), allShow_members, ← and_assoc]
    refine and_congr_left fun _ => ?_
    simp only [Placement.Shows, onAttribute_of_field hmade]
    exact and_iff_right fun marker h => h
  · intro α φ field shape rest nested others hblock hmade ih ihs
    rw [placementsOf_nested shape rest hblock, allShow_cons, allShow_append, ih, ihs, KeepMarkers, if_pos hblock,
      ← and_assoc]
    refine and_congr_left fun _ => and_congr_left fun _ => forall_congr' fun marker => ?_
    exact imp_congr_right fun _ => throughout_nested hmade marker

/-- Every field has its place in the block, and each of its markers shows there,
exactly when the model keeps its markers. -/
theorem markers_shown_iff (covers : Bool) {α : Type} (shape : Shape α) {block : Block}
    (h : shape.blockFromShape = .ok block) : (placements shape block).map Prod.fst = shape.allFields ∧
      (AllShow covers (placements shape block) ↔ shape.KeepsMarkers covers) :=
  ⟨placements_fields h, allShow_placements covers h⟩

end Shape

def passwordFields : StructFields (String × Unit) :=
  .cons { name := "password", attrs := { writeOnly := true } } (.scalar .string) .nil

def loginField : Field := { name := "login" }

def account : Shape ((String × Unit) × Unit) := .struct (.cons loginField (.struct passwordFields) .nil)

def loginAttribute : AttributeSchema :=
  { AttributeSchema.new "login" (.object [⟨"password", .string, false⟩]) with required := true }

/-- The attribute that holds the secret does not show that it is write-only. -/
theorem password_dropped : account.blockFromShape = .ok ⟨[loginAttribute], []⟩ ∧
    ∃ field ∈ account.allFields, Marker.writeOnly.onField field = true ∧
      (field, .member loginAttribute) ∈ account.placements ⟨[loginAttribute], []⟩ ∧
      ∀ covers, ¬(Placement.member loginAttribute).Shows covers .writeOnly := by
  refine ⟨rfl, _, List.mem_cons_of_mem _ (List.mem_singleton_self _), rfl, List.mem_cons_of_mem _
    (List.mem_singleton_self _), ?_⟩
  rintro covers ⟨-, h⟩
  cases h

def vault : Shape ((String × Unit) × Unit) :=
  .struct (.cons { loginField with attrs := { block := true, writeOnly := true } } (.struct passwordFields) .nil)

def vaultBlock : Block :=
  ⟨[], [⟨"login", .single,
    ⟨[{ AttributeSchema.new "password" .string with required := true, writeOnly := true }], []⟩, 1, 1⟩]⟩

theorem markers_shown_vault : (vault.placements vaultBlock).map Prod.fst = vault.allFields ∧
    (Shape.AllShow false (vault.placements vaultBlock) ↔ vault.KeepsMarkers false) :=
  Shape.markers_shown_iff false vault rfl

end TofuSdk
