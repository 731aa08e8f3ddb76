import TofuSdk.Panic

namespace TofuSdk

universe u

/-- A run of code that leaves events behind, also when it does not come back. -/
structure Trace (ε π α : Type u) where
  events : List ε
  ending : Ending π α

namespace Trace

variable {ε ε' π α β : Type u}

def andThen (t : Trace ε π α) (g : α → Trace ε π β) : Trace ε π β :=
  match t.ending with
  | .returned value => ⟨t.events ++ (g value).events, (g value).ending⟩
  | .panicked payload => ⟨t.events, .panicked payload⟩
  | .pending => ⟨t.events, .pending⟩

instance : Monad (Trace ε π) where
  pure value := ⟨[], .returned value⟩
  bind := andThen

def note (event : ε) : Trace ε π PUnit := ⟨[event], .returned ⟨⟩⟩

def mapEvents (f : ε → ε') (t : Trace ε π α) : Trace ε' π α := ⟨t.events.map f, t.ending⟩

@[simp] theorem events_pure (value : α) : (pure value : Trace ε π α).events = [] := rfl

@[simp] theorem ending_pure (value : α) : (pure value : Trace ε π α).ending = .returned value := rfl

theorem ending_bind (t : Trace ε π α) (g : α → Trace ε π β) :
    (t >>= g).ending = t.ending >>= fun value => (g value).ending := by
  change (andThen t g).ending = _
  rw [andThen]
  cases t.ending with
  | returned value => rfl
  | panicked payload => rfl
  | pending => rfl

theorem ending_map (f : α → β) (t : Trace ε π α) : (f <$> t).ending = t.ending >>= fun value => .returned (f value) :=
  ending_bind t fun value => pure (f value)

theorem events_bind_of_returned {t : Trace ε π α} {value : α} (h : t.ending = .returned value)
    (g : α → Trace ε π β) : (t >>= g).events = t.events ++ (g value).events := by
  change (andThen t g).events = _
  rw [andThen, h]

theorem events_bind_of_not_returned {t : Trace ε π α} (h : ∀ value, t.ending ≠ .returned value)
    (g : α → Trace ε π β) : (t >>= g).events = t.events := by
  change (andThen t g).events = _
  rw [andThen]
  cases hending : t.ending with
  | returned value => exact absurd hending (h value)
  | panicked payload => rfl
  | pending => rfl

theorem events_bind_pure (f : α → β) (t : Trace ε π α) : (t >>= fun value => pure (f value)).events = t.events := by
  by_cases h : ∃ value, t.ending = .returned value
  · obtain ⟨value, hvalue⟩ := h
    rw [events_bind_of_returned hvalue, events_pure, List.append_nil]
  · exact events_bind_of_not_returned (not_exists.mp h) _

theorem events_map (f : α → β) (t : Trace ε π α) : (f <$> t).events = t.events := events_bind_pure f t

end Trace

end TofuSdk
