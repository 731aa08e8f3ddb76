import Mathlib.Logic.Basic
import Mathlib.Tactic.Common

namespace TofuSdk

universe u

/-- How foreign code ends: it returns, it panics, or it never comes back. -/
inductive Ending (π α : Type u)
  | returned (value : α)
  | panicked (payload : π)
  | pending

namespace Ending

variable {π α β γ : Type u}

def isPanicked : Ending π α → Bool
  | .panicked _ => true
  | _ => false

def toOption : Ending π α → Option α
  | .returned value => some value
  | _ => none

def andThen (e : Ending π α) (g : α → Ending π β) : Ending π β :=
  match e with
  | .returned value => g value
  | .panicked payload => .panicked payload
  | .pending => .pending

instance : Monad (Ending π) where
  pure := .returned
  bind := andThen

@[simp] theorem returned_bind (value : α) (g : α → Ending π β) : Ending.returned value >>= g = g value := rfl

@[simp] theorem panicked_bind (payload : π) (g : α → Ending π β) :
    Ending.panicked payload >>= g = .panicked payload := rfl

@[simp] theorem pending_bind (g : α → Ending π β) : (Ending.pending : Ending π α) >>= g = .pending := rfl

theorem andThen_pure (e : Ending π α) : e >>= pure = e := by
  cases e <;> rfl

theorem andThen_assoc (e : Ending π α) (g : α → Ending π β) (h : β → Ending π γ) :
    e >>= g >>= h = e >>= fun value => g value >>= h := by
  cases e <;> rfl

instance : LawfulMonad (Ending π) := LawfulMonad.mk' _ andThen_pure (fun _ _ => rfl) andThen_assoc

theorem bind_eq_returned {e : Ending π α} {g : α → Ending π β} {out : β} : e >>= g = .returned out ↔
    ∃ value, e = .returned value ∧ g value = .returned out := by
  cases e <;> simp

theorem bind_returned_eq_panicked {e : Ending π α} {f : α → β} {payload : π} :
    (e >>= fun value => .returned (f value)) = .panicked payload ↔ e = .panicked payload := by
  cases e <;> simp

theorem bind_returned_eq_pending {e : Ending π α} {f : α → β} :
    (e >>= fun value => .returned (f value)) = .pending ↔ e = .pending := by
  cases e <;> simp

theorem isPanicked_bind {e : Ending π α} {g : α → Ending π β} : (e >>= g).isPanicked = false ↔
    e.isPanicked = false ∧ ∀ value, e = .returned value → (g value).isPanicked = false := by
  cases e <;> simp [isPanicked]

theorem foldlM_invariant {step : β → α → Ending π β} {P : β → Prop} {l : List α}
    (hstep : ∀ b, ∀ a ∈ l, P b → ∀ next, step b a = .returned next → P next) {b out : β} (hb : P b)
    (h : l.foldlM step b = .returned out) : P out := by
  induction l generalizing b with
  | nil =>
      cases h
      exact hb
  | cons a l ih =>
      rw [List.foldlM_cons] at h
      obtain ⟨next, hnext, h⟩ := bind_eq_returned.mp h
      exact ih (fun b a' ha' => hstep b a' (List.mem_cons_of_mem a ha')) (hstep b a List.mem_cons_self hb next hnext) h

end Ending

/-- A computation that runs foreign code. It is tripped once any of that code
has panicked, whether or not the panic was caught. -/
structure Fut (π α : Type u) where
  tripped : Bool
  ending : Ending π α

namespace Fut

variable {π α β γ : Type u}

@[ext] theorem ext {f g : Fut π α} (htripped : f.tripped = g.tripped) (hending : f.ending = g.ending) : f = g := by
  cases f
  cases g
  simp_all

def andThen (f : Fut π α) (g : α → Fut π β) : Fut π β :=
  match f.ending with
  | .returned value => ⟨f.tripped || (g value).tripped, (g value).ending⟩
  | .panicked payload => ⟨f.tripped, .panicked payload⟩
  | .pending => ⟨f.tripped, .pending⟩

instance : Monad (Fut π) where
  pure value := ⟨false, .returned value⟩
  bind := andThen

@[simp] theorem tripped_pure (value : α) : (pure value : Fut π α).tripped = false := rfl

@[simp] theorem ending_pure (value : α) : (pure value : Fut π α).ending = .returned value := rfl

theorem bind_of_returned {f : Fut π α} {value : α} (h : f.ending = .returned value) (g : α → Fut π β) :
    f >>= g = ⟨f.tripped || (g value).tripped, (g value).ending⟩ := by
  change andThen f g = _
  rw [andThen, h]

theorem bind_of_panicked {f : Fut π α} {payload : π} (h : f.ending = .panicked payload) (g : α → Fut π β) :
    f >>= g = ⟨f.tripped, .panicked payload⟩ := by
  change andThen f g = _
  rw [andThen, h]

theorem bind_of_pending {f : Fut π α} (h : f.ending = .pending) (g : α → Fut π β) :
    f >>= g = ⟨f.tripped, .pending⟩ := by
  change andThen f g = _
  rw [andThen, h]

theorem ending_bind (f : Fut π α) (g : α → Fut π β) :
    (f >>= g).ending = f.ending >>= fun value => (g value).ending := by
  cases h : f.ending with
  | returned value => rw [bind_of_returned h, Ending.returned_bind]
  | panicked payload => rw [bind_of_panicked h, Ending.panicked_bind]
  | pending => rw [bind_of_pending h, Ending.pending_bind]

theorem pure_andThen (value : α) (g : α → Fut π β) : (pure value : Fut π α) >>= g = g value := by
  rw [bind_of_returned (ending_pure value)]
  rfl

theorem andThen_assoc (f : Fut π α) (g : α → Fut π β) (h : β → Fut π γ) :
    f >>= g >>= h = f >>= fun value => g value >>= h := by
  cases hf : f.ending with
  | returned value =>
      rw [bind_of_returned hf, bind_of_returned hf]
      cases hg : (g value).ending with
      | returned out => rw [bind_of_returned rfl, bind_of_returned hg, Bool.or_assoc]
      | panicked payload => rw [bind_of_panicked rfl, bind_of_panicked hg]
      | pending => rw [bind_of_pending rfl, bind_of_pending hg]
  | panicked payload => rw [bind_of_panicked hf, bind_of_panicked hf, bind_of_panicked rfl]
  | pending => rw [bind_of_pending hf, bind_of_pending hf, bind_of_pending rfl]

theorem andThen_pure (f : Fut π α) : f >>= pure = f := by
  cases hf : f.ending with
  | returned value => exact (bind_of_returned hf pure).trans (ext (Bool.or_false _) hf.symm)
  | panicked payload => exact (bind_of_panicked hf pure).trans (ext rfl hf.symm)
  | pending => exact (bind_of_pending hf pure).trans (ext rfl hf.symm)

instance : LawfulMonad (Fut π) := LawfulMonad.mk' _ andThen_pure pure_andThen andThen_assoc

def foreign (ending : Ending π α) : Fut π α := ⟨ending.isPanicked, ending⟩

def catchUnwind (f : Fut π α) : Fut π (Except π α) :=
  ⟨f.tripped, match f.ending with
    | .returned value => .returned (.ok value)
    | .panicked payload => .returned (.error payload)
    | .pending => .pending⟩

/-- Whatever foreign code panicked, the computation comes back, with a value
that answers for it. -/
def Contained (answers : α → Prop) (f : Fut π α) : Prop :=
  f.tripped = true → ∃ value, f.ending = .returned value ∧ answers value

section

variable {answers : β → Prop}

theorem contained_of_not_tripped {f : Fut π β} (h : f.tripped = false) : Contained answers f := by
  intro htripped
  rw [h] at htripped
  cases htripped

theorem contained_pure (value : β) : Contained answers (pure value : Fut π β) :=
  contained_of_not_tripped (tripped_pure value)

theorem contained_map {f : Fut π α} {g : α → β} :
    Contained answers (g <$> f) ↔ Contained (fun value => answers (g value)) f := by
  rw [← bind_pure_comp, Contained, Contained]
  cases h : f.ending <;> simp [h, bind_of_returned, bind_of_panicked, bind_of_pending]

theorem contained_catchUnwind {ending : Ending π α} {g : Except π α → Fut π β}
    (hg : ∀ value, Contained answers (g (.ok value)))
    (h : ∀ payload, ∃ value, (g (.error payload)).ending = .returned value ∧ answers value) :
    Contained answers ((foreign ending).catchUnwind >>= g) := by
  cases ending with
  | returned value =>
      rw [bind_of_returned rfl]
      exact hg value
  | panicked payload =>
      rw [bind_of_returned rfl]
      exact fun _ => h payload
  | pending => exact contained_of_not_tripped rfl

theorem contained_foreign {ending : Ending π α} {g : α → Fut π β}
    (hg : ∀ value, ending = .returned value → Contained answers (g value)) :
    Contained answers (foreign ending >>= g) ↔ ending.isPanicked = false := by
  cases ending with
  | returned value =>
      rw [bind_of_returned rfl]
      exact iff_of_true (hg value rfl) rfl
  | panicked payload =>
      rw [bind_of_panicked rfl]
      refine iff_of_false (fun hcontained => ?_) Bool.noConfusion
      obtain ⟨value, hvalue, -⟩ := hcontained rfl
      cases hvalue
  | pending => exact iff_of_true (contained_of_not_tripped rfl) rfl

end

end Fut

end TofuSdk
