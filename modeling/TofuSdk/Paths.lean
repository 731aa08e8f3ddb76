import TofuSdk.Plan
import TofuSdk.TreePath

namespace TofuSdk

open ValueOf

namespace PathStep

def child (v : Value) (s : PathStep) : Option Value :=
  match s, v with
  | .attribute name, .object fields => fields.get? name
  | .index i, .list items | .index i, .set items => if 0 ≤ i then items[i.toNat]? else none
  | .key k, .map entries => entries.get? k
  | _, _ => none

def update (v : Value) (s : PathStep) (f : Value → Value) : Value :=
  match s, v with
  | .attribute name, .object fields => .object (fields.modify name f)
  | .index i, .list items => if 0 ≤ i then .list (items.modify i.toNat f) else .list items
  | .index i, .set items => if 0 ≤ i then .set (items.modify i.toNat f) else .set items
  | .key k, .map entries => .map (entries.modify k f)
  | _, v => v

theorem items_modify_congr {items : List Value} {i : Nat} {f g : Value → Value}
    (h : ∀ c, items[i]? = some c → f c = g c) : items.modify i f = items.modify i g := by
  apply List.ext_getElem?
  intro j
  rw [List.getElem?_modify, List.getElem?_modify]
  split_ifs with hj
  · subst hj
    exact Option.map_congr h
  · rfl

theorem items_modify_eq_self {items : List Value} {i : Nat} {f : Value → Value}
    (h : ∀ c, items[i]? = some c → f c = c) : items.modify i f = items := by
  rw [items_modify_congr h]
  exact List.modify_id i items

theorem update_eq_self (v : Value) (s : PathStep) (f : Value → Value) (h : ∀ c, child v s = some c → f c = c) :
    update v s f = v := by
  rcases s with name | i | k
  · cases v with
    | object fields => exact congrArg ValueOf.object (OrdMap.modify_eq_self h)
    | _ => rfl
  · by_cases hi : 0 ≤ i
    · cases v with
      | list items => simpa [update, hi] using items_modify_eq_self (by simpa [child, hi] using h)
      | set items => simpa [update, hi] using items_modify_eq_self (by simpa [child, hi] using h)
      | _ => rfl
    · cases v <;> simp [update, hi]
  · cases v with
    | map entries => exact congrArg ValueOf.map (OrdMap.modify_eq_self h)
    | _ => rfl

theorem child_update_self (v : Value) (s : PathStep) (f : Value → Value) :
    child (update v s f) s = (child v s).map f := by
  rcases s with name | i | k
  · cases v <;> simp [child, update, OrdMap.get?_modify]
  · by_cases hi : 0 ≤ i <;> cases v <;> simp [child, update, hi]
  · cases v <;> simp [child, update, OrdMap.get?_modify]

theorem child_update_of_ne (v : Value) (s : PathStep) (f : Value → Value) (s' : PathStep) (hne : s' ≠ s) :
    child (update v s f) s' = child v s' := by
  rcases s with name | i | k
  · cases v with
    | object fields =>
        rcases s' with name' | _ | _
        · have hname : name' ≠ name := fun h => hne (congrArg PathStep.attribute h)
          simp [child, update, OrdMap.get?_modify, hname]
        · rfl
        · rfl
    | _ => rfl
  · by_cases hi : 0 ≤ i
    · rcases s' with _ | j | _
      · cases v <;> simp [child, update, hi]
      · have hj : 0 ≤ j → i.toNat ≠ j.toNat := fun hj h => hne (congrArg PathStep.index (by omega))
        by_cases hpos : 0 ≤ j
        · cases v <;> simp [child, update, hi, hpos, hj hpos]
        · cases v <;> simp [child, update, hi, hpos]
      · cases v <;> simp [child, update, hi]
    · cases v <;> simp [update, hi]
  · cases v with
    | map entries =>
        rcases s' with _ | _ | k'
        · rfl
        · rfl
        · have hk : k' ≠ k := fun h => hne (congrArg PathStep.key h)
          simp [child, update, OrdMap.get?_modify, hk]
    | _ => rfl

theorem update_index_neg {i : Int} (hi : ¬0 ≤ i) {v : Value} {f : Value → Value} : update v (.index i) f = v := by
  cases v <;> simp [update, hi]

theorem update_update (v : Value) (s : PathStep) (f g : Value → Value) :
    update (update v s f) s g = update v s fun c => g (f c) := by
  rcases s with name | i | k
  · cases v with
    | object fields => exact congrArg ValueOf.object (fields.modify_modify name f g)
    | _ => rfl
  · by_cases hi : 0 ≤ i
    · cases v <;> simp [update, hi, List.modify_modify_eq, Function.comp_def]
    · rw [update_index_neg hi, update_index_neg hi, update_index_neg hi]
  · cases v with
    | map entries => exact congrArg ValueOf.map (entries.modify_modify k f g)
    | _ => rfl

theorem update_comm (v : Value) (s t : PathStep) (f g : Value → Value) (hne : s ≠ t) :
    update (update v s f) t g = update (update v t g) s f := by
  cases v with
  | object fields =>
      rcases s with name | _ | _
      · rcases t with name' | _ | _
        · have hname : name ≠ name' := fun h => hne (congrArg PathStep.attribute h)
          exact congrArg ValueOf.object (fields.modify_comm hname f g)
        · rfl
        · rfl
      · cases t <;> rfl
      · cases t <;> rfl
  | map entries =>
      cases s with
      | key k =>
          cases t with
          | key k' =>
              have hk : k ≠ k' := fun h => hne (congrArg PathStep.key h)
              exact congrArg ValueOf.map (entries.modify_comm hk f g)
          | _ => rfl
      | _ => cases t <;> rfl
  | list items | set items =>
      cases s with
      | index i =>
          by_cases hi : 0 ≤ i
          · cases t with
            | index j =>
                by_cases hj : 0 ≤ j
                · have hij : i.toNat ≠ j.toNat := fun h => hne (congrArg PathStep.index (by omega))
                  simp [update, hi, hj, List.modify_modify_ne f g items hij]
                · simp [update, hi, hj]
            | _ => simp [update, hi]
          · rw [update_index_neg hi, update_index_neg hi]
      | _ =>
          cases t with
          | index j => by_cases hj : 0 ≤ j <;> simp [update, hj]
          | _ => rfl
  | _ => cases s <;> cases t <;> rfl

theorem isNull_update (v : Value) (s : PathStep) (f : Value → Value) : (update v s f).isNull = v.isNull := by
  rcases s with name | i | k
  · cases v <;> rfl
  · by_cases hi : 0 ≤ i <;> cases v <;> simp [update, hi, isNull]
  · cases v <;> rfl

end PathStep

def valueTree : TreePath Value PathStep where
  child := PathStep.child
  update := PathStep.update
  child_update_self := PathStep.child_update_self
  child_update_of_ne := PathStep.child_update_of_ne
  update_eq_self := PathStep.update_eq_self

theorem getAtPath_eq (v : Value) (p : Path) : getAtPath v p = valueTree.get v p := by
  induction p generalizing v with
  | nil => cases v <;> rfl
  | cons s p ih =>
      rw [TreePath.get, ← funext ih]
      rcases s with name | i | k
      · cases v <;> rfl
      · by_cases hi : 0 ≤ i <;> cases v <;> simp [getAtPath, valueTree, PathStep.child, hi]
      · cases v <;> rfl

theorem setAtPath_eq (v : Value) (p : Path) (leaf : Value) : setAtPath v p leaf = valueTree.set v p leaf := by
  induction p generalizing v with
  | nil => cases v <;> rfl
  | cons s p ih =>
      rw [TreePath.set, ← funext ih]
      rcases s with name | i | k
      · cases v <;> rfl
      · by_cases hi : 0 ≤ i <;> cases v <;> simp [setAtPath, valueTree, PathStep.update, hi]
      · cases v <;> rfl

theorem valueTree_composes : valueTree.Composes := ⟨PathStep.update_update, PathStep.update_comm⟩

/-- The two functions resolve a path alike. -/
theorem getAtPath_setAtPath_lens : TreePath.Lens getAtPath setAtPath := by
  have hget : getAtPath = valueTree.get := by
    funext v p
    exact getAtPath_eq v p
  have hset : setAtPath = valueTree.set := by
    funext v p leaf
    exact setAtPath_eq v p leaf
  rw [hget, hset]
  exact valueTree_composes.lens

theorem keepPriorAt_eq (prior planned : Value) (path : Path) :
    keepPriorAt prior planned path = valueTree.overwrite (getAtPath prior) planned path := by
  rw [keepPriorAt, TreePath.overwrite]
  cases getAtPath prior path with
  | some l => exact setAtPath_eq planned path l
  | none => rfl

theorem applyModifications_planned (plan : Plan) (mods : PlanModifications) (prior : Value) :
    (applyModifications plan mods prior).planned = valueTree.overlay (fun _ => some .unknown)
      (valueTree.overlay (getAtPath prior) plan.planned mods.keepPrior) mods.unknown := by
  have hkeep : keepPriorAt prior = valueTree.overwrite (getAtPath prior) := by
    funext planned path
    exact keepPriorAt_eq prior planned path
  have hunknown : (fun planned path => setAtPath planned path .unknown) =
      valueTree.overwrite fun _ => some .unknown := by
    funext planned path
    exact setAtPath_eq planned path .unknown
  rw [applyModifications, hkeep, hunknown]
  rfl

theorem coherent_getAtPath (prior : Value) : valueTree.Coherent (getAtPath prior) := by
  intro k r l x hl hx y hy
  rw [getAtPath_eq] at hl hy
  rw [TreePath.get_append, hl, Option.bind_some, hx] at hy
  exact (Option.some.inj hy).symm

theorem coherent_unknown : valueTree.Coherent fun _ => some .unknown := by
  intro k r l x hl hx y hy
  obtain rfl := Option.some.inj hl
  obtain rfl := Option.some.inj hy
  cases r with
  | nil => exact Option.some.inj hx
  | cons s r => cases s <;> cases hx

/-- What a path leads to, if anything, is null. -/
def Blank (v : Value) (p : Path) : Prop := ∀ x, getAtPath v p = some x → x = .null

namespace PlanModifications

variable (mods : PlanModifications) (prior planned : Value)

def Kept (k : Path) : Prop :=
  k ∈ mods.keepPrior ∧ (getAtPath prior k).isSome ∧ (getAtPath planned k).isSome

/-- A path that is made unknown: it leads somewhere once the kept paths are written. -/
def Marked (u : Path) : Prop :=
  u ∈ mods.unknown ∧ (((∃ k, mods.Kept prior planned k ∧ k <+: u) ∧ (getAtPath prior u).isSome) ∨
    (∀ k, mods.Kept prior planned k → ¬k <+: u) ∧ (getAtPath planned u).isSome)

/-- A path at which the modifications put a value: nothing around it is made
unknown, and it is made unknown itself or lies where a prior value is kept that
is not null there. -/
def Fills (p : Path) : Prop :=
  (∀ u, mods.Marked prior planned u → u <+: p → u = p) ∧
    (mods.Marked prior planned p ∨ ∃ k, mods.Kept prior planned k ∧ k <+: p ∧ ¬Blank prior p)

end PlanModifications

section

variable {mods : PlanModifications} {prior planned v : Value} {p : Path}

theorem isNull_iff {x : Value} : x.isNull = true ↔ x = .null := by
  cases x <;> simp [isNull]

theorem blank_congr {w : Value} (h : (getAtPath v p).map isNull = (getAtPath w p).map isNull) :
    Blank v p ↔ Blank w p := by
  have hiff : ∀ v : Value, Blank v p ↔ ∀ b, (getAtPath v p).map isNull = some b → b = true := by
    intro v
    constructor
    · intro h b hb
      obtain ⟨x, hx, rfl⟩ := Option.map_eq_some_iff.mp hb
      exact isNull_iff.mpr (h x hx)
    · intro h x hx
      exact isNull_iff.mp (h _ (by rw [hx]; rfl))
  rw [hiff, hiff, h]

theorem written_keepPrior_iff {k : Path} :
    valueTree.Written (getAtPath prior) planned mods.keepPrior k ↔ mods.Kept prior planned k := by
  rw [TreePath.Written, PlanModifications.Kept, getAtPath_eq planned]

/-- The prior value stands below a kept path, and elsewhere nothing becomes
null or ceases to be. -/
theorem getAtPath_kept : (∀ k, mods.Kept prior planned k → k <+: p →
      getAtPath (valueTree.overlay (getAtPath prior) planned mods.keepPrior) p = getAtPath prior p) ∧
    ((∀ k, mods.Kept prior planned k → ¬k <+: p) →
      (getAtPath (valueTree.overlay (getAtPath prior) planned mods.keepPrior) p).map isNull =
        (getAtPath planned p).map isNull) := by
  have hspec := TreePath.overlay_spec PathStep.isNull_update (coherent_getAtPath prior) planned mods.keepPrior
  constructor
  · intro k hk hpre
    obtain ⟨k₀, hout, -⟩ := TreePath.exists_outermost (written_keepPrior_iff.mpr hk) hpre
    obtain ⟨r, rfl⟩ := hout.2.1
    rw [getAtPath_eq, hspec.inside k₀ r hout]
    simp only [getAtPath_eq]
    exact (TreePath.get_append prior k₀ r).symm
  · intro hfree
    rw [getAtPath_eq, getAtPath_eq]
    exact hspec.outside p fun k hk => hfree k (written_keepPrior_iff.mp hk)

theorem written_unknown_iff {u : Path} : valueTree.Written (fun _ => some .unknown)
    (valueTree.overlay (getAtPath prior) planned mods.keepPrior) mods.unknown u ↔ mods.Marked prior planned u := by
  rw [TreePath.Written, PlanModifications.Marked, ← getAtPath_eq]
  apply and_congr_right
  intro hu
  rw [Option.isSome_some, eq_self_iff_true, true_and]
  by_cases hcovered : ∃ k, mods.Kept prior planned k ∧ k <+: u
  · obtain ⟨k, hk, hpre⟩ := hcovered
    rw [getAtPath_kept.1 k hk hpre]
    constructor
    · exact fun h => .inl ⟨⟨k, hk, hpre⟩, h⟩
    · rintro (⟨-, h⟩ | ⟨hfree, -⟩)
      · exact h
      · exact absurd hpre (hfree k hk)
  · push Not at hcovered
    have hsame := congrArg Option.isSome (getAtPath_kept.2 hcovered)
    rw [Option.isSome_map, Option.isSome_map] at hsame
    rw [hsame]
    constructor
    · exact fun h => .inr ⟨hcovered, h⟩
    · rintro (⟨⟨k, hk, hpre⟩, -⟩ | ⟨-, h⟩)
      · exact absurd hpre (hcovered k hk)
      · exact h

/-- At a path that the plan leaves blank, the modified plan is blank unless
they fill it. -/
theorem blank_applyModifications_iff {plan : Plan} (hblank : Blank plan.planned p) :
    Blank (applyModifications plan mods prior).planned p ↔ ¬mods.Fills prior plan.planned p := by
  have hspec := TreePath.overlay_spec PathStep.isNull_update coherent_unknown
    (valueTree.overlay (getAtPath prior) plan.planned mods.keepPrior) mods.unknown
  rw [applyModifications_planned]
  by_cases hmarked : ∃ u, mods.Marked prior plan.planned u ∧ u <+: p
  · obtain ⟨u, hu, hpre⟩ := hmarked
    obtain ⟨u₀, hout, -⟩ := TreePath.exists_outermost (written_unknown_iff.mpr hu) hpre
    obtain ⟨hu₀, ⟨r, rfl⟩, hmin⟩ := hout
    have hget := hspec.inside u₀ r ⟨hu₀, List.prefix_append _ _, hmin⟩
    rw [Option.bind_some, ← getAtPath_eq] at hget
    cases r with
    | nil =>
        rw [List.append_nil] at hget ⊢
        refine iff_of_false ?_ ?_
        · intro h
          cases h _ hget
        · intro h
          exact h ⟨fun u hu hpre => hmin u (written_unknown_iff.mpr hu) hpre, .inl (written_unknown_iff.mp hu₀)⟩
    | cons s r =>
        have hnone : valueTree.get .unknown (s :: r) = none := by cases s <;> rfl
        refine iff_of_true ?_ ?_
        · intro x hx
          rw [hget, hnone] at hx
          cases hx
        · intro h
          have hlen := congrArg List.length (h.1 u₀ (written_unknown_iff.mp hu₀) (List.prefix_append _ _))
          simp at hlen
  · push Not at hmarked
    have hunknown := hspec.outside p fun u hu => hmarked u (written_unknown_iff.mp hu)
    rw [← getAtPath_eq, ← getAtPath_eq] at hunknown
    rw [blank_congr hunknown]
    by_cases hcovered : ∃ k, mods.Kept prior plan.planned k ∧ k <+: p
    · obtain ⟨k, hk, hpre⟩ := hcovered
      rw [Blank, getAtPath_kept.1 k hk hpre]
      constructor
      · rintro h ⟨-, hp | ⟨-, -, -, hprior⟩⟩
        · exact hmarked p hp List.prefix_rfl
        · exact hprior h
      · intro h
        by_contra hprior
        exact h ⟨fun u hu hpre => absurd hpre (hmarked u hu), .inr ⟨k, hk, hpre, hprior⟩⟩
    · push Not at hcovered
      rw [blank_congr (getAtPath_kept.2 hcovered)]
      refine iff_of_true hblank ?_
      rintro ⟨-, hp | ⟨k, hk, hpre, -⟩⟩
      · exact hmarked p hp List.prefix_rfl
      · exact hcovered k hk hpre

end

end TofuSdk
