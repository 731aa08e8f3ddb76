import TofuSdk.Run
import Mathlib.Logic.Function.Basic

namespace TofuSdk

/-- Named entries, and who holds the lock of each. -/
structure Shelf (κ ν ι : Type*) where
  content : κ → Option ν
  holder : κ → Option ι

namespace Shelf

/-- What an operation shows of itself. What is lost may be anything from then
on, a contested lock may have been given to anyone if it was free, and a
loosened one may be free. -/
inductive Event (κ ν ι : Type*)
  | read (k : κ) (v : ν)
  | wrote (k : κ) (v : ν)
  | cleared (k : κ)
  | listed (domain : κ → Prop) (keys : List κ)
  | locked (k : κ) (i : ι)
  | unlocked (k : κ)
  | lost (k : κ)
  | contested (k : κ)
  | loosened (k : κ)
  | quiet

variable {κ ν ι : Type*}

namespace Event

def Touches (k : κ) : Event κ ν ι → Prop
  | .wrote k' _ | .cleared k' | .lost k' => k' = k
  | _ => False

def Frees (k : κ) : Event κ ν ι → Prop
  | .unlocked k' | .loosened k' => k' = k
  | _ => False

def attempt : Event κ ν ι → Event κ ν ι
  | .wrote k _ | .cleared k | .lost k => .lost k
  | .locked k _ | .contested k => .contested k
  | .unlocked k | .loosened k => .loosened k
  | .read _ _ | .listed _ _ | .quiet => .quiet

theorem touches_attempt {k : κ} (e : Event κ ν ι) : e.attempt.Touches k ↔ e.Touches k := by
  cases e <;> exact Iff.rfl

theorem frees_attempt {k : κ} (e : Event κ ν ι) : e.attempt.Frees k ↔ e.Frees k := by
  cases e <;> exact Iff.rfl

end Event

variable [DecidableEq κ] [Inhabited ν]

/-- What is not there reads as the default. A lock is given only when it is free. -/
def Step (s : Shelf κ ν ι) (e : Event κ ν ι) (t : Shelf κ ν ι) : Prop :=
  match e with
  | .read k v => t = s ∧ (s.content k).getD default = v
  | .wrote k v => t = { s with content := Function.update s.content k (some v) }
  | .cleared k => t = { s with content := Function.update s.content k none }
  | .listed domain keys => t = s ∧ ∀ k, domain k → (k ∈ keys ↔ (s.content k).isSome = true)
  | .locked k i => s.holder k = none ∧ t = { s with holder := Function.update s.holder k (some i) }
  | .unlocked k => t = { s with holder := Function.update s.holder k none }
  | .lost k => t.holder = s.holder ∧ ∀ j, j ≠ k → t.content j = s.content j
  | .contested k =>
      t.content = s.content ∧ (s.holder k ≠ none → t.holder k = s.holder k) ∧ ∀ j, j ≠ k → t.holder j = s.holder j
  | .loosened k =>
      t.content = s.content ∧ (t.holder k = none ∨ t.holder k = s.holder k) ∧ ∀ j, j ≠ k → t.holder j = s.holder j
  | .quiet => t = s

section

variable {s t : Shelf κ ν ι} {e : Event κ ν ι} {k : κ}

theorem Step.attempt (h : Step s e t) : Step s e.attempt t := by
  cases e with
  | read k' v => exact h.1
  | wrote k' v =>
      obtain rfl := h
      exact ⟨rfl, fun j hj => Function.update_of_ne hj _ _⟩
  | cleared k' =>
      obtain rfl := h
      exact ⟨rfl, fun j hj => Function.update_of_ne hj _ _⟩
  | listed domain keys => exact h.1
  | locked k' i =>
      obtain ⟨hnone, rfl⟩ := h
      exact ⟨rfl, fun hheld => absurd hnone hheld, fun j hj => Function.update_of_ne hj _ _⟩
  | unlocked k' =>
      obtain rfl := h
      exact ⟨rfl, .inl (Function.update_self _ _ _), fun j hj => Function.update_of_ne hj _ _⟩
  | lost k' => exact h
  | contested k' => exact h
  | loosened k' => exact h
  | quiet => exact h

theorem step_attempt (s : Shelf κ ν ι) (e : Event κ ν ι) : Step s e.attempt s := by
  cases e with
  | read k' v => rfl
  | wrote k' v => exact ⟨rfl, fun j _ => rfl⟩
  | cleared k' => exact ⟨rfl, fun j _ => rfl⟩
  | listed domain keys => rfl
  | locked k' i => exact ⟨rfl, fun _ => rfl, fun j _ => rfl⟩
  | unlocked k' => exact ⟨rfl, .inr rfl, fun j _ => rfl⟩
  | lost k' => exact ⟨rfl, fun j _ => rfl⟩
  | contested k' => exact ⟨rfl, fun _ => rfl, fun j _ => rfl⟩
  | loosened k' => exact ⟨rfl, .inr rfl, fun j _ => rfl⟩
  | quiet => rfl

theorem content_of_step (h : Step s e t) (htouch : ¬e.Touches k) : t.content k = s.content k := by
  cases e with
  | read k' v => rw [h.1]
  | wrote k' v =>
      obtain rfl := h
      exact Function.update_of_ne (Ne.symm htouch) _ _
  | cleared k' =>
      obtain rfl := h
      exact Function.update_of_ne (Ne.symm htouch) _ _
  | listed domain keys => rw [h.1]
  | locked k' i => rw [h.2]
  | unlocked k' => rw [h]
  | lost k' => exact h.2 k (Ne.symm htouch)
  | contested k' => rw [h.1]
  | loosened k' => rw [h.1]
  | quiet => rw [h]

theorem holder_of_step (h : Step s e t) (hfree : ¬e.Frees k) {i : ι} (hheld : s.holder k = some i) :
    t.holder k = some i := by
  cases e with
  | read k' v => rwa [h.1]
  | wrote k' v => rwa [h]
  | cleared k' => rwa [h]
  | listed domain keys => rwa [h.1]
  | locked k' j =>
      obtain ⟨hnone, rfl⟩ := h
      have hne : k ≠ k' := by
        rintro rfl
        rw [hnone] at hheld
        cases hheld
      rw [← hheld]
      exact Function.update_of_ne hne _ _
  | unlocked k' =>
      obtain rfl := h
      rw [← hheld]
      exact Function.update_of_ne (Ne.symm hfree) _ _
  | lost k' => rwa [h.1]
  | contested k' =>
      obtain rfl | hne := eq_or_ne k k'
      · rw [h.2.1 (by rw [hheld]; exact Option.some_ne_none i), hheld]
      · rw [h.2.2 k hne, hheld]
  | loosened k' => rw [h.2.2 k (Ne.symm hfree), hheld]
  | quiet => rwa [h]

variable {trace : List (Shelf κ ν ι × Event κ ν ι)}

theorem content_of_run (h : Run Step s trace t) (htouch : ∀ p ∈ trace, ¬p.2.Touches k) {x : Option ν}
    (hs : s.content k = x) : t.content k = x := by
  refine @Run.invariant _ _ _ _ _ _ (fun a => a.content k = x) (fun _ e => ¬e.Touches k) ?_ h htouch hs
  exact fun _ _ _ hstep htouch ha => (content_of_step hstep htouch).trans ha

theorem holder_of_run (h : Run Step s trace t) (hfree : ∀ p ∈ trace, ¬p.2.Frees k) {i : ι}
    (hs : s.holder k = some i) : t.holder k = some i := by
  refine @Run.invariant _ _ _ _ _ _ (fun a => a.holder k = some i) (fun _ e => ¬e.Frees k) ?_ h hfree hs
  exact fun _ _ _ hstep hfree ha => holder_of_step hstep hfree ha

variable {s₁ s₂ : Shelf κ ν ι}

theorem content_of_wrote {v : ν} (h : Run Step s ((s₁, .wrote k v) :: trace) t)
    (htouch : ∀ p ∈ trace, ¬p.2.Touches k) : t.content k = some v := by
  rw [Run.cons_iff] at h
  obtain ⟨rfl, u, rfl, hrun⟩ := h
  apply content_of_run hrun htouch
  exact Function.update_self _ _ _

theorem content_of_cleared (h : Run Step s ((s₁, .cleared k) :: trace) t)
    (htouch : ∀ p ∈ trace, ¬p.2.Touches k) : t.content k = none := by
  rw [Run.cons_iff] at h
  obtain ⟨rfl, u, rfl, hrun⟩ := h
  apply content_of_run hrun htouch
  exact Function.update_self _ _ _

theorem freed_of_locked {i j : ι} (h : Run Step s ((s₁, .locked k i) :: trace) t) (hagain : Step t (.locked k j) s₂) :
    ∃ p ∈ trace, p.2.Frees k := by
  by_contra hnone
  rw [Run.cons_iff] at h
  obtain ⟨rfl, u, ⟨-, rfl⟩, hrun⟩ := h
  have hheld : t.holder k = some i := by
    apply holder_of_run hrun fun p hp hfrees => hnone ⟨p, hp, hfrees⟩
    exact Function.update_self _ _ _
  rw [hagain.1] at hheld
  cases hheld

end

section

variable {μ : Type*}

def map (f : ν → μ) (s : Shelf κ ν ι) : Shelf κ μ ι := ⟨fun k => (s.content k).map f, s.holder⟩

def Event.map (f : ν → μ) : Event κ ν ι → Event κ μ ι
  | .read k v => .read k (f v)
  | .wrote k v => .wrote k (f v)
  | .cleared k => .cleared k
  | .listed domain keys => .listed domain keys
  | .locked k i => .locked k i
  | .unlocked k => .unlocked k
  | .lost k => .lost k
  | .contested k => .contested k
  | .loosened k => .loosened k
  | .quiet => .quiet

variable [Inhabited μ] {f : ν → μ}

theorem Step.map (hf : f default = default) {s t : Shelf κ ν ι} {e : Event κ ν ι} (h : Step s e t) :
    Step (s.map f) (e.map f) (t.map f) := by
  cases e with
  | read k v =>
      obtain ⟨rfl, rfl⟩ := h
      refine ⟨rfl, ?_⟩
      change ((t.content k).map f).getD default = f ((t.content k).getD default)
      cases t.content k with
      | none => exact hf.symm
      | some v => rfl
  | wrote k v =>
      obtain rfl := h
      exact congrArg (Shelf.mk · s.holder) (Function.comp_update (Option.map f) s.content k (some v))
  | cleared k =>
      obtain rfl := h
      exact congrArg (Shelf.mk · s.holder) (Function.comp_update (Option.map f) s.content k none)
  | listed domain keys =>
      obtain ⟨rfl, hkeys⟩ := h
      refine ⟨rfl, fun k hk => ?_⟩
      rw [hkeys k hk, Shelf.map, Option.isSome_map]
  | locked k i =>
      obtain ⟨hfree, rfl⟩ := h
      exact ⟨hfree, rfl⟩
  | unlocked k =>
      obtain rfl := h
      rfl
  | lost k => exact ⟨h.1, fun j hj => congrArg (Option.map f) (h.2 j hj)⟩
  | contested k => exact ⟨congrArg (fun content j => (content j).map f) h.1, h.2⟩
  | loosened k => exact ⟨congrArg (fun content j => (content j).map f) h.1, h.2⟩
  | quiet =>
      obtain rfl := h
      rfl

end

end Shelf

end TofuSdk
