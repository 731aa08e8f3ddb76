import TofuSdk.Durations
import TofuSdk.Handler
import Mathlib.Data.List.SplitBy
import Mathlib.Data.Nat.Digits.Defs

namespace TofuSdk

namespace Timeouts

def ofDigits (digits : List Char) : Nat := Nat.ofDigits 10 (digits.reverse.map fun c => c.toNat - '0'.toNat)

/-- An unsigned decimal: digits with at most one point among them. -/
inductive Decimal : List Char → Rat → Prop
  | whole {digits : List Char} (hne : digits ≠ []) (hd : ∀ c ∈ digits, c.isDigit = true) :
      Decimal digits (ofDigits digits)
  | point {whole fraction : List Char} (hne : whole ++ fraction ≠ [])
      (hd : ∀ c ∈ whole ++ fraction, c.isDigit = true) :
      Decimal (whole ++ '.' :: fraction) (ofDigits whole + ofDigits fraction / 10 ^ fraction.length)

def unitNanos (unit : String) : Option Rat :=
  match unit with
  | "ns" => some 1
  | "us" | "µs" | "μs" => some (10 ^ 3)
  | "ms" => some (10 ^ 6)
  | "s" => some (10 ^ 9)
  | "m" => some (60 * 10 ^ 9)
  | "h" => some (3600 * 10 ^ 9)
  | _ => none

structure Term where
  number : List Char
  unit : List Char
  amount : Rat
  nanosEach : Rat
  isDecimal : Decimal number amount
  isUnit : unitNanos (String.ofList unit) = some nanosEach

/-- Terms, one after the other. -/
def Spelling (s : List Char) (terms : List Term) : Prop :=
  terms ≠ [] ∧ terms.flatMap (fun t => t.number ++ t.unit) = s

def total (terms : List Term) : Rat := (terms.map fun t => t.amount * t.nanosEach).sum

/-- Is the time of the term, as floats compute it, no more than half a
nanosecond? -/
def Term.Vanishes (t : Term) : Prop := termNanos t.number t.unit = some 0

section

variable {c : Char} {cs digits rest : List Char} {q : Rat}

theorem isNumeric_of_isDigit (h : c.isDigit = true) : isNumeric c = true := by
  rw [isNumeric, h, Bool.true_or]

theorem digits_append (rest : List Char) (hd : ∀ c ∈ digits, c.isDigit = true)
    (hrest : ∀ c ∈ rest.head?, c.isDigit = false) :
    Number.digits (digits ++ rest) = (ofDigits digits, digits.length, rest) := by
  induction digits with
  | nil =>
      cases rest with
      | nil => rfl
      | cons c rest =>
          have hc := hrest c rfl
          simp [Number.digits, hc, ofDigits]
  | cons c digits ih =>
      have hc := hd c List.mem_cons_self
      have htail := ih fun c' hc' => hd c' (List.mem_cons_of_mem c hc')
      rw [List.cons_append, Number.digits, if_pos hc, htail]
      simp only [List.length_cons, Prod.mk.injEq, and_true]
      rw [ofDigits, ofDigits, List.reverse_cons, List.map_append, Nat.ofDigits_append, List.length_map,
        List.length_reverse]
      simp only [List.map_cons, List.map_nil, Nat.ofDigits_singleton]
      ring

theorem Decimal.isNumeric (h : Decimal cs q) : ∀ c ∈ cs, isNumeric c = true := by
  intro c hc
  cases h with
  | whole _ hd => exact isNumeric_of_isDigit (hd c hc)
  | point _ hd =>
      rw [List.mem_append, List.mem_cons] at hc
      obtain hc | rfl | hc := hc
      · exact isNumeric_of_isDigit (hd c (List.mem_append_left _ hc))
      · rfl
      · exact isNumeric_of_isDigit (hd c (List.mem_append_right _ hc))

theorem Decimal.ne_nil (h : Decimal cs q) : cs ≠ [] := by
  cases h with
  | whole hne _ => exact hne
  | point _ _ => simp

theorem Decimal.parseDecimal (h : Decimal cs q) : Number.parseDecimal cs = some q := by
  cases h with
  | whole hne hd =>
      have hdigits := digits_append [] hd (by simp)
      rw [List.append_nil] at hdigits
      simp [Number.parseDecimal, hdigits, hne, Number.parseExponent]
  | @point whole fraction hne hd =>
      have hwhole := digits_append ('.' :: fraction) (fun c hc => hd c (List.mem_append_left fraction hc)) (by simp)
      have hfraction := digits_append [] (fun c hc => hd c (List.mem_append_right whole hc)) (by simp)
      rw [List.append_nil] at hfraction
      have hlen : ¬whole.length + fraction.length = 0 := by
        rw [← List.length_append]
        exact fun h => hne (List.length_eq_zero_iff.mp h)
      simp only [Number.parseDecimal, hwhole, hfraction, if_neg hlen, Number.parseExponent, Option.map_some,
        zpow_zero, mul_one]

theorem exists_digits (h : ∀ c ∈ cs, isNumeric c = true) : ∃ digits rest, cs = digits ++ rest ∧
    (∀ c ∈ digits, c.isDigit = true) ∧
      (rest = [] ∨ ∃ rest', rest = '.' :: rest' ∧ ∀ c ∈ rest', isNumeric c = true) := by
  induction cs with
  | nil => exact ⟨[], [], rfl, by simp, .inl rfl⟩
  | cons c cs ih =>
      have htail : ∀ c ∈ cs, isNumeric c = true := fun c' hc' => h c' (List.mem_cons_of_mem c hc')
      have hc := h c List.mem_cons_self
      rw [Timeouts.isNumeric, Bool.or_eq_true, beq_iff_eq] at hc
      obtain hc | rfl := hc
      · obtain ⟨digits, rest, rfl, hd, hrest⟩ := ih htail
        exact ⟨c :: digits, rest, rfl, List.forall_mem_cons.mpr ⟨hc, hd⟩, hrest⟩
      · exact ⟨[], '.' :: cs, rfl, by simp, .inr ⟨cs, rfl, htail⟩⟩

theorem decimal_of_parseDecimal (h : ∀ c ∈ cs, isNumeric c = true) (hq : Number.parseDecimal cs = some q) :
    Decimal cs q := by
  obtain ⟨whole, rest, rfl, hwhole, rfl | ⟨rest, rfl, hnumeric⟩⟩ := exists_digits h
  · have hdigits := digits_append [] hwhole (by simp)
    by_cases hne : whole = []
    · subst hne
      simp [Number.parseDecimal, Number.digits] at hq
    · rw [Number.parseDecimal, hdigits] at hq
      simp [hne, Number.parseExponent] at hq
      subst hq
      rw [List.append_nil]
      exact .whole hne hwhole
  · have hdigits := digits_append ('.' :: rest) hwhole (by simp)
    obtain ⟨fraction, rest, rfl, hfraction, rfl | ⟨rest, rfl, -⟩⟩ := exists_digits hnumeric
    · have hfdigits := digits_append [] hfraction (by simp)
      rw [Number.parseDecimal, hdigits] at hq
      simp only [hfdigits] at hq
      split_ifs at hq with hlen
      simp only [Number.parseExponent, Option.map_some, zpow_zero, mul_one, Option.some.injEq] at hq
      subst hq
      rw [List.append_nil]
      refine .point ?_ ?_
      · intro hnil
        rw [← List.length_append, hnil] at hlen
        exact hlen rfl
      · intro c hc
        exact (List.mem_append.mp hc).elim (hwhole c) (hfraction c)
    · -- A second point is no exponent.
      have hfdigits := digits_append ('.' :: rest) hfraction (by simp)
      rw [Number.parseDecimal, hdigits] at hq
      simp only [hfdigits] at hq
      split_ifs at hq
      simp [Number.parseExponent] at hq

theorem toLower_of_isNumeric (h : isNumeric c = true) : c.toLower = c := by
  apply dif_neg
  intro hupper
  have hle : 65 ≤ c.toNat := hupper.1
  rw [Timeouts.isNumeric, Bool.or_eq_true, beq_iff_eq] at h
  obtain hd | rfl := h
  · rw [Char.isDigit, Bool.and_eq_true, decide_eq_true_eq, decide_eq_true_eq] at hd
    have hge : c.toNat ≤ 57 := hd.2
    omega
  · exact absurd hle (by decide)

theorem signed_of_isNumeric (h : ∀ c ∈ cs, isNumeric c = true) : Number.signed cs = (false, cs) := by
  cases cs with
  | nil => rfl
  | cons c cs =>
      have hc := h c List.mem_cons_self
      rw [Number.signed.eq_3]
      · rintro _ ⟨⟩
        cases hc
      · rintro _ ⟨⟩
        cases hc

theorem parseF64_of_isNumeric (h : ∀ c ∈ cs, isNumeric c = true) :
    Number.parseF64 cs = (Number.parseDecimal cs).map fun q => { BinaryFloat.ofRat q with sign := false } := by
  have hlower : cs.map Char.toLower = cs := by
    rw [List.map_congr_left fun c hc => toLower_of_isNumeric (h c hc), List.map_id']
  have hword : ∀ word : String, (∃ c ∈ word.toList, isNumeric c = false) → cs ≠ word.toList := by
    rintro word ⟨c, hc, hn⟩ rfl
    rw [h c hc] at hn
    cases hn
  have hinf := hword "inf" ⟨'i', by simp, rfl⟩
  have hinfinity := hword "infinity" ⟨'i', by simp, rfl⟩
  have hnan := hword "nan" ⟨'n', by simp, rfl⟩
  rw [Number.parseF64, signed_of_isNumeric h]
  simp only [hlower, hinf, hinfinity, hnan, decide_false, Bool.or_self, Bool.false_eq_true, if_false]

end

theorem unit_chars {unit : String} {q : Rat} (h : unitNanos unit = some q) :
    0 < q ∧ unit.toList ≠ [] ∧ ∀ c ∈ unit.toList, isNumeric c = false := by
  unfold unitNanos at h
  split at h <;> cases h
  all_goals exact ⟨by norm_num, by simp, by simp [isNumeric]⟩

theorem inSeconds_zero {unit : String} {q : Rat} (h : unitNanos unit = some q) :
    inSeconds BinaryFloat.zero unit = some BinaryFloat.zero := by
  unfold unitNanos at h
  split at h <;> cases h
  all_goals exact congrArg some (by decide +kernel)

theorem exists_unitNanos {value seconds : F64} {unit : String} (h : inSeconds value unit = some seconds) :
    ∃ q, unitNanos unit = some q := by
  unfold inSeconds at h
  split at h
  all_goals first | exact ⟨_, rfl⟩ | cases h

theorem vanishes_of_amount {t : Term} (h : t.amount = 0) : t.Vanishes := by
  have hnumeric := t.isDecimal.isNumeric
  have hparse : Number.parseF64 t.number = some BinaryFloat.zero := by
    rw [parseF64_of_isNumeric hnumeric, t.isDecimal.parseDecimal, h]
    rfl
  rw [Term.Vanishes, termNanos, if_pos (List.all_eq_true.mpr hnumeric), hparse, Option.bind_some,
    inSeconds_zero t.isUnit]
  decide +kernel

theorem exists_term {number unit : List Char} {nanos : Nat} (h : termNanos number unit = some nanos) :
    ∃ t : Term, t.number = number ∧ t.unit = unit := by
  obtain ⟨seconds, hseconds, -, -⟩ := exists_seconds h
  rw [Option.bind_eq_some_iff] at hseconds
  obtain ⟨value, hvalue, hunit⟩ := hseconds
  split_ifs at hvalue with hnumeric
  have hall := List.all_eq_true.mp hnumeric
  rw [parseF64_of_isNumeric hall, Option.map_eq_some_iff] at hvalue
  obtain ⟨q, hq, -⟩ := hvalue
  obtain ⟨each, heach⟩ := exists_unitNanos hunit
  exact ⟨⟨number, unit, q, each, decimal_of_parseDecimal hall hq, heach⟩, rfl, rfl⟩

theorem exists_terms {runs : List (List Char)} (h : complete runs = true) :
    ∃ terms : List Term, runs = terms.flatMap fun t => [t.number, t.unit] := by
  induction runs using complete.induct with
  | case1 => exact ⟨[], rfl⟩
  | case2 run => cases h
  | case3 number unit rest ih =>
      rw [complete, Bool.and_eq_true, Option.isSome_iff_exists] at h
      obtain ⟨⟨nanos, hterm⟩, hrest⟩ := h
      obtain ⟨t, rfl, rfl⟩ := exists_term hterm
      obtain ⟨terms, rfl⟩ := ih hrest
      exact ⟨t :: terms, rfl⟩

theorem splitBy_uniform {p : Char → Bool} {b : Bool} {l m : List Char} (hne : l ≠ []) (hl : ∀ c ∈ l, p c = b)
    (hm : ∀ c ∈ m.head?, p c = !b) :
    (l ++ m).splitBy (fun x y => p x == p y) = l :: m.splitBy fun x y => p x == p y := by
  have hchain : l.IsChain fun x y => (p x == p y) = true := by
    apply List.Pairwise.isChain
    apply List.pairwise_of_forall_mem_list
    intro x hx y hy
    rw [hl x hx, hl y hy, beq_self_eq_true]
  rw [List.splitBy_append, List.splitBy_of_isChain hne hchain, List.singleton_append]
  intro x hx y hy
  rw [hl x (List.mem_of_getLast? hx), hm y hy]
  cases b <;> rfl

theorem splitBy_spelled (terms : List Term) :
    (terms.flatMap fun t => t.number ++ t.unit).splitBy (fun a b => isNumeric a == isNumeric b) =
      terms.flatMap fun t => [t.number, t.unit] := by
  induction terms with
  | nil => rfl
  | cons t terms ih =>
      obtain ⟨-, hne, hunit⟩ := unit_chars t.isUnit
      rw [String.toList_ofList] at hne hunit
      have hnext : ∀ c ∈ (terms.flatMap fun t => t.number ++ t.unit).head?, isNumeric c = !false := by
        intro c hc
        cases terms with
        | nil => cases hc
        | cons t terms =>
            rw [List.flatMap_cons, List.append_assoc, List.head?_append_of_ne_nil _ t.isDecimal.ne_nil] at hc
            exact t.isDecimal.isNumeric c (List.mem_of_mem_head? hc)
      have hhead : ∀ c ∈ (t.unit ++ terms.flatMap fun t => t.number ++ t.unit).head?, isNumeric c = !true := by
        intro c hc
        rw [List.head?_append_of_ne_nil _ hne] at hc
        exact hunit c (List.mem_of_mem_head? hc)
      rw [List.flatMap_cons, List.append_assoc, splitBy_uniform t.isDecimal.ne_nil t.isDecimal.isNumeric hhead,
        splitBy_uniform hne hunit hnext, ih]
      rfl

section

variable {s : String} {terms : List Term}

theorem runs_of_spelling (h : Spelling (trim s.toList) terms) : runs s = terms.flatMap fun t => [t.number, t.unit] := by
  rw [runs, ← h.2, splitBy_spelled]

theorem spelling_of_complete (hne : trim s.toList ≠ []) (h : complete (runs s) = true) :
    ∃ terms, Spelling (trim s.toList) terms := by
  obtain ⟨terms, hterms⟩ := exists_terms h
  have hflatten : (runs s).flatten = trim s.toList := List.flatten_splitBy _ _
  refine ⟨terms, ?_, ?_⟩
  · rintro rfl
    rw [hterms] at hflatten
    exact hne hflatten.symm
  · rw [← hflatten, hterms]
    clear hterms
    induction terms with
    | nil => rfl
    | cons t terms ih => simp [ih]

theorem vanishing_terms (h : ∀ t ∈ terms, t.Vanishes) :
    complete (terms.flatMap fun t => [t.number, t.unit]) = true ∧
      (leading (terms.flatMap fun t => [t.number, t.unit])).sum = 0 := by
  induction terms with
  | nil => exact ⟨rfl, rfl⟩
  | cons t terms ih =>
      have ht : termNanos t.number t.unit = some 0 := h t List.mem_cons_self
      obtain ⟨hcomplete, hsum⟩ := ih fun t' ht' => h t' (List.mem_cons_of_mem t ht')
      simp [complete, leading, ht, hcomplete, hsum]

theorem leading_pos {t : Term} (hcomplete : complete (terms.flatMap fun t => [t.number, t.unit]) = true)
    (ht : t ∈ terms) (hv : ¬t.Vanishes) : 0 < (leading (terms.flatMap fun t => [t.number, t.unit])).sum := by
  induction terms with
  | nil => cases ht
  | cons t' terms ih =>
      rw [List.flatMap_cons, List.cons_append, List.cons_append, List.nil_append, complete, Bool.and_eq_true,
        Option.isSome_iff_exists] at hcomplete
      obtain ⟨⟨nanos, hnanos⟩, hrest⟩ := hcomplete
      rw [List.flatMap_cons, List.cons_append, List.cons_append, List.nil_append, leading]
      simp only [hnanos, List.sum_cons]
      obtain rfl | ht := List.mem_cons.mp ht
      · have hne : nanos ≠ 0 := by
          rintro rfl
          exact hv hnanos
        omega
      · have hpos := ih hrest ht
        omega

theorem Decimal.nonneg {cs : List Char} {q : Rat} (h : Decimal cs q) : 0 ≤ q := by
  cases h <;> positivity

theorem total_pos {t : Term} (ht : t ∈ terms) (hv : ¬t.Vanishes) : 0 < total terms := by
  have hnonneg : ∀ q ∈ terms.map fun t => t.amount * t.nanosEach, 0 ≤ q := by
    intro q hq
    obtain ⟨t, -, rfl⟩ := List.mem_map.mp hq
    exact mul_nonneg t.isDecimal.nonneg (unit_chars t.isUnit).1.le
  have hamount : 0 < t.amount := lt_of_le_of_ne t.isDecimal.nonneg fun h => hv (vanishes_of_amount h.symm)
  have hterm : 0 < t.amount * t.nanosEach := mul_pos hamount (unit_chars t.isUnit).1
  exact hterm.trans_le (List.single_le_sum hnonneg _ (List.mem_map_of_mem ht))

/-- A string that asks for some time. -/
def SpellsTime (s : String) : Prop := ∃ terms, Spelling (trim s.toList) terms ∧ 0 < total terms

/-- A string whose parse neither takes no time for a deadline nor overflows on
what is no duration. -/
structure Regular (s : String) : Prop where
  not_zero : trim s.toList ≠ ['0']
  not_vanishing : ∀ terms, Spelling (trim s.toList) terms → ∃ t ∈ terms, ¬t.Vanishes
  fits : (∀ terms, ¬Spelling (trim s.toList) terms) → (leading (runs s)).sum < Duration.limit

theorem parseGoDuration_of_lt (hzero : trim s.toList ≠ ['0']) (h : (leading (runs s)).sum < Duration.limit) :
    ∃ r, parseGoDuration s = .ok r ∧ r.map Duration.nanos =
      if trim s.toList ≠ [] ∧ complete (runs s) = true then some (leading (runs s)).sum else none := by
  obtain ⟨hok, -⟩ := parseTerms_spec (runs s) .zero
  have hstart : Duration.zero.nanos = 0 := rfl
  rw [hstart, Nat.zero_add] at hok
  rw [parseGoDuration]
  by_cases hempty : trim s.toList = []
  · exact ⟨none, by simp [hempty], by simp [hempty]⟩
  · have hne : ¬(trim s.toList).isEmpty = true := fun h => hempty (List.isEmpty_iff.mp h)
    obtain ⟨r, hr, hnanos⟩ := hok h
    refine ⟨r, ?_, ?_⟩
    · simp only [if_neg hne, if_neg hzero]
      exact hr
    · simpa only [hempty, ne_eq, not_false_eq_true, true_and] using hnanos

theorem parse_zero (h : trim s.toList = ['0']) : parseGoDuration s = .ok (some .zero) := by
  rw [parseGoDuration, h]
  rfl

theorem parse_vanishing (hs : Spelling (trim s.toList) terms) (h : ∀ t ∈ terms, t.Vanishes) :
    ∃ d : Duration, parseGoDuration s = .ok (some d) ∧ d.nanos = 0 := by
  by_cases hzero : trim s.toList = ['0']
  · exact ⟨.zero, parse_zero hzero, rfl⟩
  · obtain ⟨hcomplete, hsum⟩ := vanishing_terms h
    rw [← runs_of_spelling hs] at hcomplete hsum
    have hne : trim s.toList ≠ [] := by
      intro hnil
      rw [runs_of_spelling hs] at hcomplete
      obtain ⟨hne, hflat⟩ := hs
      obtain ⟨t, ht⟩ := List.exists_mem_of_ne_nil terms hne
      rw [hnil, List.flatMap_eq_nil_iff] at hflat
      exact t.isDecimal.ne_nil (List.append_eq_nil_iff.mp (hflat t ht)).1
    obtain ⟨r, hr, hnanos⟩ := parseGoDuration_of_lt hzero (by rw [hsum]; norm_num [Duration.limit])
    rw [if_pos ⟨hne, hcomplete⟩, hsum, Option.map_eq_some_iff] at hnanos
    obtain ⟨d, rfl, hd⟩ := hnanos
    exact ⟨d, hr, hd⟩

/-- A parse gives deadlines only to what asks for time exactly on the regular
strings. -/
theorem parse_iff_regular : ((∀ d, parseGoDuration s = .ok (some d) → 0 < d.nanos ∧ SpellsTime s) ∧
    (¬SpellsTime s → parseGoDuration s = .ok none)) ↔ Regular s := by
  constructor
  · rintro ⟨hsome, hnone⟩
    refine ⟨fun hzero => ?_, fun terms hs => ?_, fun hno => ?_⟩
    · exact absurd (hsome .zero (parse_zero hzero)).1 (Nat.lt_irrefl 0)
    · by_contra hall
      push Not at hall
      obtain ⟨d, hd, hnanos⟩ := parse_vanishing hs hall
      have hpos := (hsome d hd).1
      omega
    · exact (parseGoDuration_returns_iff s).mp ⟨none, hnone fun ⟨terms, hs, _⟩ => hno terms hs⟩
  · intro h
    constructor
    · intro d hd
      have hlt := (parseGoDuration_returns_iff s).mp ⟨_, hd⟩
      obtain ⟨r, hr, hnanos⟩ := parseGoDuration_of_lt h.not_zero hlt
      obtain rfl := Except.ok.inj (hd.symm.trans hr)
      rw [Option.map_some] at hnanos
      split_ifs at hnanos with hread
      obtain ⟨hne, hcomplete⟩ := hread
      obtain ⟨terms, hs⟩ := spelling_of_complete hne hcomplete
      obtain ⟨t, ht, hv⟩ := h.not_vanishing terms hs
      rw [runs_of_spelling hs] at hcomplete hnanos
      refine ⟨?_, terms, hs, total_pos ht hv⟩
      rw [Option.some.inj hnanos]
      exact leading_pos hcomplete ht hv
    · intro hno
      have hnone : ∀ terms, ¬Spelling (trim s.toList) terms := by
        intro terms hs
        obtain ⟨t, ht, hv⟩ := h.not_vanishing terms hs
        exact hno ⟨terms, hs, total_pos ht hv⟩
      obtain ⟨r, hr, hnanos⟩ := parseGoDuration_of_lt h.not_zero (h.fits hnone)
      rw [if_neg fun hread => (spelling_of_complete hread.1 hread.2).elim hnone, Option.map_eq_none_iff] at hnanos
      rw [hr, hnanos]

end

/-- Only a string that asks for time sets a deadline, and without one a handler
runs as long as it likes. -/
structure SetsDeadlines (value : Value) (operation : String) : Prop where
  positive : ∀ d, forOperation value operation = .ok (some d) →
    0 < d.nanos ∧ ∃ s ∈ configured value operation, SpellsTime s
  absent : (¬∃ s ∈ configured value operation, SpellsTime s) → forOperation value operation = .ok none
  unbounded : (¬∃ s ∈ configured value operation, SpellsTime s) → ∀ {α : Type} (handler : Handler α),
    ∃ limit, forOperation value operation = .ok limit ∧ bounded operation limit handler = handler

/-- The strings that break it are zero, times that floats round to zero, and
other text whose leading terms overflow. -/
theorem setsDeadlines_iff (value : Value) (operation : String) :
    SetsDeadlines value operation ↔ ∀ s ∈ configured value operation, Regular s := by
  have heq := forOperation_eq value operation
  cases hs : configured value operation with
  | none =>
      rw [hs, Option.elim_none] at heq
      refine iff_of_true ⟨?_, fun _ => heq, fun _ _ _ => ⟨none, heq, rfl⟩⟩ (by simp)
      intro d hd
      rw [heq] at hd
      cases hd
  | some s =>
      rw [hs, Option.elim_some] at heq
      simp only [Option.mem_def, Option.some.injEq, forall_eq']
      rw [← parse_iff_regular, ← heq]
      constructor
      · rintro ⟨hpositive, habsent, -⟩
        simp only [hs, Option.mem_def, Option.some.injEq, exists_eq_left'] at hpositive habsent
        exact ⟨hpositive, habsent⟩
      · rintro ⟨hpositive, habsent⟩
        refine ⟨?_, ?_, ?_⟩
        all_goals simp only [hs, Option.mem_def, Option.some.injEq, exists_eq_left']
        · exact hpositive
        · exact habsent
        · exact fun hno α handler => ⟨none, habsent hno, rfl⟩

/-- No seconds at all are a deadline. -/
theorem zero_deadline : ¬SetsDeadlines (createWithin "0s") "create" := by
  intro h
  have hzero : (forOperation (createWithin "0s") "create").toOption.map (·.map Duration.nanos) = some (some 0) := by
    decide +kernel
  cases hr : forOperation (createWithin "0s") "create" with
  | error e =>
      rw [hr] at hzero
      cases hzero
  | ok r =>
      cases r with
      | none =>
          rw [hr] at hzero
          cases hzero
      | some d =>
          rw [hr] at hzero
          obtain hd := Option.some.inj (Option.some.inj hzero)
          exact absurd hd (h.positive d hr).1.ne'

end Timeouts

end TofuSdk
