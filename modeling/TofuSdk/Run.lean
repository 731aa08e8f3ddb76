import Mathlib.Data.List.Basic

namespace TofuSdk

/-- A run of a transition system, with the state that each event met. -/
inductive Run {σ ε : Type*} (step : σ → ε → σ → Prop) : σ → List (σ × ε) → σ → Prop
  | nil (s : σ) : Run step s [] s
  | cons (s t u : σ) (e : ε) (rest : List (σ × ε)) :
      step s e t → Run step t rest u → Run step s ((s, e) :: rest) u

namespace Run

variable {σ ε : Type*} {step : σ → ε → σ → Prop} {s t : σ} {trace : List (σ × ε)}

theorem step_of_mem (h : Run step s trace t) {p : σ × ε} (hp : p ∈ trace) : ∃ u, step p.1 p.2 u := by
  induction h with
  | nil => cases hp
  | cons s t u e rest hstep _ ih =>
      obtain rfl | hp := List.mem_cons.mp hp
      · exact ⟨t, hstep⟩
      · exact ih hp

theorem invariant {inv : σ → Prop} {cond : σ → ε → Prop}
    (hinv : ∀ s e t, step s e t → cond s e → inv s → inv t) (h : Run step s trace t)
    (hcond : ∀ p ∈ trace, cond p.1 p.2) (hs : inv s) : inv t := by
  induction h with
  | nil => exact hs
  | cons s t u e rest hstep _ ih =>
      apply ih fun p hp => hcond p (List.mem_cons_of_mem _ hp)
      exact hinv s e t hstep (hcond (s, e) List.mem_cons_self) hs

theorem eq_foldl {f : σ → ε → σ} {cond : σ → ε → Prop} (hf : ∀ s e t, step s e t → cond s e → t = f s e)
    (h : Run step s trace t) (hcond : ∀ p ∈ trace, cond p.1 p.2) : t = (trace.map Prod.snd).foldl f s := by
  induction h with
  | nil => rfl
  | cons s t u e rest hstep _ ih =>
      rw [List.map_cons, List.foldl_cons, ← hf s e t hstep (hcond (s, e) List.mem_cons_self)]
      exact ih fun p hp => hcond p (List.mem_cons_of_mem _ hp)

theorem cons_iff {e : ε} {p : σ} : Run step s ((p, e) :: trace) t ↔ p = s ∧ ∃ u, step s e u ∧ Run step u trace t := by
  constructor
  · intro h
    cases h with
    | cons _ u _ _ _ hstep hrest => exact ⟨rfl, u, hstep, hrest⟩
  · rintro ⟨rfl, u, hstep, hrest⟩
    exact .cons p u t e trace hstep hrest

theorem append_iff {rest : List (σ × ε)} :
    Run step s (trace ++ rest) t ↔ ∃ u, Run step s trace u ∧ Run step u rest t := by
  induction trace generalizing s with
  | nil =>
      refine ⟨fun h => ⟨s, .nil s, h⟩, ?_⟩
      rintro ⟨u, hnil, h⟩
      cases hnil
      exact h
  | cons p trace ih =>
      obtain ⟨p, e⟩ := p
      simp only [List.cons_append, cons_iff, ih]
      constructor
      · rintro ⟨rfl, u, hstep, v, htrace, hrest⟩
        exact ⟨v, ⟨rfl, u, hstep, htrace⟩, hrest⟩
      · rintro ⟨v, ⟨rfl, u, hstep, htrace⟩, hrest⟩
        exact ⟨rfl, u, hstep, v, htrace, hrest⟩

theorem reached_of_mem (h : Run step s trace t) {p : σ × ε} (hp : p ∈ trace) :
    ∃ before u, Run step s before p.1 ∧ step p.1 p.2 u ∧ ∀ q ∈ before, q ∈ trace := by
  obtain ⟨before, after, rfl⟩ := List.append_of_mem hp
  rw [append_iff] at h
  obtain ⟨u, hbefore, h⟩ := h
  obtain ⟨p, e⟩ := p
  rw [cons_iff] at h
  obtain ⟨rfl, v, hstep, -⟩ := h
  exact ⟨before, v, hbefore, hstep, fun q hq => List.mem_append_left _ hq⟩

theorem between {before mid after : List (σ × ε)} {e : σ × ε} {p : σ} {e' : ε}
    (h : Run step s (before ++ e :: mid ++ (p, e') :: after) t) : ∃ u v, Run step u (e :: mid) p ∧ step p e' v := by
  rw [List.append_assoc, append_iff] at h
  obtain ⟨u, -, h⟩ := h
  rw [append_iff] at h
  obtain ⟨p', hmid, h⟩ := h
  rw [cons_iff] at h
  obtain ⟨rfl, v, hstep, -⟩ := h
  exact ⟨u, v, hmid, hstep⟩

/-- A run whose every step is one of another system, seen through a view, is a
run of that system. -/
theorem map {τ η : Type*} {step' : τ → η → τ → Prop} {view : σ → τ} {event : ε → η}
    (hstep : ∀ s e t, step s e t → step' (view s) (event e) (view t)) (h : Run step s trace t) :
    Run step' (view s) (trace.map fun p => (view p.1, event p.2)) (view t) := by
  induction h with
  | nil s => exact .nil (view s)
  | cons s t u e rest h _ ih => exact .cons _ _ _ _ _ (hstep s e t h) ih

/-- A run of a system is followed by one of another system, step by step, along
a relation of their states. -/
theorem simulation {τ : Type*} {step' : τ → ε → τ → Prop} {rel : σ → τ → Prop}
    (hstep : ∀ s e t s', step s e t → rel s s' → ∃ t', step' s' e t' ∧ rel t t') (h : Run step s trace t) {s' : τ}
    (hs : rel s s') : ∃ trace' t', Run step' s' trace' t' ∧ rel t t' ∧
      List.Forall₂ (fun p q => rel p.1 q.1 ∧ p.2 = q.2) trace trace' := by
  induction h generalizing s' with
  | nil s => exact ⟨[], s', .nil s', hs, .nil⟩
  | cons s t u e rest h _ ih =>
      obtain ⟨t', ht', hrel⟩ := hstep s e t s' h hs
      obtain ⟨trace', u', hrun, hu, hall⟩ := ih hrel
      exact ⟨(s', e) :: trace', u', .cons s' t' u' e trace' ht' hrun, hu, .cons ⟨hs, rfl⟩ hall⟩

end Run

end TofuSdk
