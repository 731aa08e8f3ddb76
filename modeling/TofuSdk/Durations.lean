import TofuSdk.Outcome
import TofuSdk.Timeouts

namespace TofuSdk

/-- The nanoseconds that no duration reaches. -/
def Duration.limit : Nat := 2 ^ 64 * 10 ^ 9

def nearestNanos (seconds : F64) : Nat := (BinaryFloat.roundEven (seconds.value * 10 ^ 9)).toNat

namespace Duration

theorem fromSecsF64_of_lt {seconds : F64} (h : nearestNanos seconds < limit) :
    fromSecsF64 seconds = .ok ⟨nearestNanos seconds, h⟩ := dif_pos h

theorem fromSecsF64_of_not_lt {seconds : F64} (h : ¬nearestNanos seconds < limit) :
    ∃ e, fromSecsF64 seconds = .error e := ⟨_, dif_neg h⟩

theorem add_of_lt {d e : Duration} (h : d.nanos + e.nanos < limit) : d.add e = .ok ⟨d.nanos + e.nanos, h⟩ := dif_pos h

theorem add_of_not_lt {d e : Duration} (h : ¬d.nanos + e.nanos < limit) : ∃ e', d.add e = .error e' := ⟨_, dif_neg h⟩

end Duration

namespace Timeouts

def configured (value : Value) (operation : String) : Option String :=
  match value with
  | .object fields =>
      match ((fields.get? blockName).bind blockEntries).bind (·.get? operation) with
      | some (.string s) => some s
      | _ => none
  | _ => none

theorem forOperation_eq (value : Value) (operation : String) :
    forOperation value operation = (configured value operation).elim (.ok none) parseGoDuration := by
  cases value with
  | object fields =>
      rw [forOperation, configured]
      cases ((fields.get? blockName).bind blockEntries).bind (·.get? operation) with
      | none => rfl
      | some v => cases v <;> rfl
  | _ => rfl

def runs (input : String) : List (List Char) := (trim input.toList).splitBy fun a b => isNumeric a == isNumeric b

def termNanos (number unit : List Char) : Option Nat :=
  ((if number.all isNumeric then Number.parseF64 number else none).bind (inSeconds · (String.ofList unit))).bind
    fun seconds =>
      if !seconds.isFinite || decide (seconds.value < 0) then none
      else some (nearestNanos seconds)

/-- The nanoseconds of the terms before the first that is none. -/
def leading (runs : List (List Char)) : List Nat :=
  match runs with
  | number :: unit :: rest =>
      match termNanos number unit with
      | some nanos => nanos :: leading rest
      | none => []
  | _ => []

def complete (runs : List (List Char)) : Bool :=
  match runs with
  | [] => true
  | [_] => false
  | number :: unit :: rest => (termNanos number unit).isSome && complete rest

section

variable {number unit : List Char} {rest : List (List Char)} {total : Duration}

theorem parseTerms_none (h : termNanos number unit = none) : parseTerms (number :: unit :: rest) total = .ok none := by
  rw [termNanos] at h
  rw [parseTerms]
  split
  next seconds hseconds =>
    rw [hseconds, Option.bind_some] at h
    split_ifs at h with hbad
    rw [if_pos hbad]
  next => rfl

theorem exists_seconds {nanos : Nat} (h : termNanos number unit = some nanos) : ∃ seconds : F64,
    (if number.all isNumeric then Number.parseF64 number else none).bind (inSeconds · (String.ofList unit)) =
      some seconds ∧ ¬(!seconds.isFinite || decide (seconds.value < 0)) = true ∧ nearestNanos seconds = nanos := by
  rw [termNanos, Option.bind_eq_some_iff] at h
  obtain ⟨seconds, hseconds, h⟩ := h
  split_ifs at h with hbad
  exact ⟨seconds, hseconds, hbad, Option.some.inj h⟩

theorem parseTerms_of_term {nanos : Nat} (h : termNanos number unit = some nanos) : ∃ seconds,
    nearestNanos seconds = nanos ∧ parseTerms (number :: unit :: rest) total =
      Duration.fromSecsF64 seconds >>= fun term => total.add term >>= fun total => parseTerms rest total := by
  obtain ⟨seconds, hseconds, hbad, hnearest⟩ := exists_seconds h
  refine ⟨seconds, hnearest, ?_⟩
  rw [parseTerms]
  split
  next seconds' hseconds' =>
    obtain rfl := Option.some.inj (hseconds.symm.trans hseconds')
    exact if_neg hbad
  next hnone => cases hseconds.symm.trans hnone

theorem parseTerms_some {nanos : Nat} (h : termNanos number unit = some nanos)
    (hlt : total.nanos + nanos < Duration.limit) :
    parseTerms (number :: unit :: rest) total = parseTerms rest ⟨total.nanos + nanos, hlt⟩ := by
  obtain ⟨seconds, rfl, hparse⟩ := parseTerms_of_term h
  rw [hparse, Duration.fromSecsF64_of_lt ((Nat.le_add_left _ _).trans_lt hlt), Outcome.ok_bind,
    Duration.add_of_lt hlt, Outcome.ok_bind]

theorem parseTerms_overflow {nanos : Nat} (h : termNanos number unit = some nanos)
    (hge : ¬total.nanos + nanos < Duration.limit) : ∃ e, parseTerms (number :: unit :: rest) total = .error e := by
  obtain ⟨seconds, rfl, hparse⟩ := parseTerms_of_term h
  rw [hparse]
  by_cases hterm : nearestNanos seconds < Duration.limit
  · obtain ⟨e, he⟩ := Duration.add_of_not_lt (d := total) (e := ⟨nearestNanos seconds, hterm⟩) hge
    exact ⟨e, by rw [Duration.fromSecsF64_of_lt hterm, Outcome.ok_bind, he, Outcome.error_bind]⟩
  · obtain ⟨e, he⟩ := Duration.fromSecsF64_of_not_lt hterm
    exact ⟨e, by rw [he, Outcome.error_bind]⟩

end

/-- The terms are summed while they are terms; the first that is none, and a
number without a unit, make the whole no duration. -/
theorem parseTerms_spec (runs : List (List Char)) (total : Duration) :
    (total.nanos + (leading runs).sum < Duration.limit → ∃ r, parseTerms runs total = .ok r ∧
      r.map Duration.nanos = if complete runs then some (total.nanos + (leading runs).sum) else none) ∧
    (¬total.nanos + (leading runs).sum < Duration.limit → ∃ e, parseTerms runs total = .error e) := by
  induction runs using complete.induct generalizing total with
  | case1 =>
      refine ⟨fun h => ⟨some total, rfl, rfl⟩, fun h => absurd total.bound h⟩
  | case2 run => exact ⟨fun _ => ⟨none, rfl, rfl⟩, fun h => absurd total.bound h⟩
  | case3 number unit rest ih =>
      rw [leading, complete]
      cases hterm : termNanos number unit with
      | none => exact ⟨fun _ => ⟨none, parseTerms_none hterm, rfl⟩, fun h => absurd total.bound h⟩
      | some nanos =>
          by_cases hlt : total.nanos + nanos < Duration.limit
          · obtain ⟨hok, herror⟩ := ih ⟨total.nanos + nanos, hlt⟩
            simp only at hok herror
            rw [parseTerms_some hterm hlt, List.sum_cons, ← Nat.add_assoc, Option.isSome_some, Bool.true_and]
            exact ⟨hok, herror⟩
          · have hsum : ¬total.nanos + (nanos :: leading rest).sum < Duration.limit := by
              rw [List.sum_cons]
              omega
            exact ⟨fun h => absurd h hsum, fun _ => parseTerms_overflow hterm hlt⟩

theorem parseGoDuration_returns_iff (input : String) :
    (∃ r, parseGoDuration input = .ok r) ↔ (leading (runs input)).sum < Duration.limit := by
  have hpos : 0 < Duration.limit := by norm_num [Duration.limit]
  rw [parseGoDuration, runs]
  generalize trim input.toList = s
  by_cases hempty : s.isEmpty = true
  · obtain rfl := List.isEmpty_iff.mp hempty
    exact iff_of_true ⟨none, rfl⟩ hpos
  · by_cases hzero : s = ['0']
    · subst hzero
      exact iff_of_true ⟨some .zero, rfl⟩ hpos
    · obtain ⟨hok, herror⟩ := parseTerms_spec (s.splitBy fun a b => isNumeric a == isNumeric b) .zero
      have hstart : Duration.zero.nanos = 0 := rfl
      rw [hstart, Nat.zero_add] at hok herror
      rw [if_neg hempty, if_neg hzero]
      constructor
      · rintro ⟨r, hr⟩
        by_contra hge
        obtain ⟨e, he⟩ := herror hge
        cases hr.symm.trans he
      · intro hlt
        obtain ⟨r, hr, -⟩ := hok hlt
        exact ⟨r, hr⟩

/-- Reading a timeout panics exactly when the terms before the first malformed
one add up to more than a duration holds. -/
theorem timeouts_return_iff (input : String) (value : Value) (operation : String) :
    ((∃ r, parseGoDuration input = .ok r) ↔ (leading (runs input)).sum < Duration.limit) ∧
      ((∃ r, forOperation value operation = .ok r) ↔
        ∀ s ∈ configured value operation, (leading (runs s)).sum < Duration.limit) := by
  refine ⟨parseGoDuration_returns_iff input, ?_⟩
  rw [forOperation_eq]
  cases configured value operation with
  | none => exact iff_of_true ⟨none, rfl⟩ fun s h => by cases h
  | some s => simpa using parseGoDuration_returns_iff s

def createWithin (limit : String) : Value :=
  .object (OrdMap.empty.insert blockName (.object (OrdMap.empty.insert "create" (.string limit))))

/-- More hours than a duration holds. -/
theorem create_panics : ¬∃ r, forOperation (createWithin "99999999999999999999h") "create" = .ok r := by
  rintro ⟨r, hr⟩
  have hnone : (forOperation (createWithin "99999999999999999999h") "create").toOption = none := by decide +kernel
  rw [hr] at hnone
  cases hnone

end Timeouts

end TofuSdk
