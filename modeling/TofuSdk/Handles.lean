import TofuSdk.Run

namespace TofuSdk

/-- A service that hands out tokens. It answers a request that comes with a
token or without one, and may hand out a token in return. -/
structure Issuer (τ ε : Type*) where
  answers (held : Option τ) (e : ε) (issued : Option τ) : Prop

namespace Issuer

variable {τ η ε : Type*}

/-- A client makes a request, with one of the tokens that it holds or with none,
and keeps what it is handed in return. -/
inductive Step (issuer : Issuer τ ε) : List τ → Option ℕ × ε → List τ → Prop
  | fresh (pool : List τ) (e : ε) (issued : Option τ) :
      issuer.answers none e issued → Step issuer pool (none, e) (pool ++ issued.toList)
  | held (pool : List τ) (i : ℕ) (token : τ) (e : ε) (issued : Option τ) :
      pool[i]? = some token → issuer.answers (some token) e issued →
      Step issuer pool (some i, e) (pool ++ issued.toList)

/-- A service that answers as another one does, with tokens that stand for those
of the other. -/
def Refines (issuer : Issuer τ ε) (spec : Issuer η ε) (represent : η → τ) : Prop :=
  ∀ held e issued, issuer.answers (held.map represent) e issued →
    ∃ issued', spec.answers held e issued' ∧ issued = issued'.map represent

section

variable {issuer : Issuer τ ε} {spec : Issuer η ε} {represent : η → τ}

theorem Refines.step (h : issuer.Refines spec represent) (pool : List τ) (e : Option ℕ × ε) (next : List τ)
    (handles : List η) (hstep : issuer.Step pool e next) (hpool : pool = handles.map represent) :
    ∃ handles', spec.Step handles e handles' ∧ next = handles'.map represent := by
  have hkept : ∀ issued : Option η, handles.map represent ++ (issued.map represent).toList =
      (handles ++ issued.toList).map represent := by
    intro issued
    rw [List.map_append, Option.toList_map]
  cases hstep with
  | fresh e issued hanswers =>
      obtain ⟨issued', hspec, rfl⟩ := h none e issued hanswers
      exact ⟨_, .fresh handles e issued' hspec, hpool ▸ hkept issued'⟩
  | held i token e issued hget hanswers =>
      rw [hpool, List.getElem?_map, Option.map_eq_some_iff] at hget
      obtain ⟨handle, hhandle, rfl⟩ := hget
      obtain ⟨issued', hspec, rfl⟩ := h (some handle) e issued hanswers
      exact ⟨_, .held handles i handle e issued' hhandle hspec, hpool ▸ hkept issued'⟩

/-- Whatever a client does with the tokens that it is handed, it might have done
with those that they stand for. -/
theorem Refines.run (h : issuer.Refines spec represent) {trace : List (List τ × Option ℕ × ε)} {pool : List τ}
    (hrun : Run issuer.Step [] trace pool) : ∃ trace' handles, Run spec.Step [] trace' handles ∧
      pool = handles.map represent ∧ trace = trace'.map fun p => (p.1.map represent, p.2) := by
  have hnone : ([] : List τ) = ([] : List η).map represent := rfl
  obtain ⟨trace', handles, hrun', hpool, hall⟩ := hrun.simulation h.step hnone
  refine ⟨trace', handles, hrun', hpool, ?_⟩
  clear hrun hrun'
  induction hall with
  | nil => rfl
  | cons hp _ ih =>
      obtain ⟨hstate, hevent⟩ := hp
      rw [List.map_cons, ← ih, ← hstate, ← hevent]

end

end Issuer

end TofuSdk
