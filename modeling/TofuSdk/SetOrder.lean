import TofuSdk.Sequences
import TofuSdk.Quotient
import TofuSdk.Replace

namespace TofuSdk

open ValueOf Value

section

variable {v w p q : Value} {path : List String}

theorem Value.Shuffled.valueAt (h : Shuffled v w) (hp : TofuSdk.valueAt v path = some p) :
    ∃ p', TofuSdk.valueAt w path = some p' ∧ Shuffled p p' := by
  induction path generalizing v w with
  | nil =>
      obtain rfl := Option.some.inj hp
      exact ⟨w, rfl, h⟩
  | cons name path ih =>
      obtain ⟨fields, child, rfl, hchild, hp⟩ := valueAt_cons hp
      cases h with
      | object _ fields' hkeys h =>
          obtain ⟨child', hchild'⟩ := OrdMap.exists_of_keys_eq hkeys hchild
          obtain ⟨p', hp', hshuffled⟩ := ih (h name child child' hchild hchild') hp
          exact ⟨p', (valueAt_object path hchild').trans hp', hshuffled⟩

theorem Value.Shuffled.valueAt_eq_none (h : Shuffled v w) (hp : TofuSdk.valueAt v path = none) :
    TofuSdk.valueAt w path = none := by
  cases hq : TofuSdk.valueAt w path with
  | none => rfl
  | some q =>
      obtain ⟨p, hp', -⟩ := h.symm.valueAt hq
      rw [hp] at hp'
      cases hp'

theorem exists_shuffled (hp : valueAt v path = some p) (h : Shuffled p q) :
    ∃ w, Shuffled v w ∧ valueAt w path = some q := by
  induction path generalizing v with
  | nil =>
      obtain rfl := Option.some.inj hp
      exact ⟨q, h, rfl⟩
  | cons name path ih =>
      obtain ⟨fields, child, rfl, hchild, hp⟩ := valueAt_cons hp
      obtain ⟨child', hchild', hq⟩ := ih hp
      obtain ⟨hkeys, hfields⟩ := shuffled_insert hchild hchild'
      refine ⟨_, .object _ _ hkeys hfields, ?_⟩
      rw [valueAt_object path (OrdMap.get?_insert_self fields name child'), hq]

end

def Steady (f : Value → Value) (p q : Value) : Prop :=
  ∀ p' q', Shuffled p p' → Shuffled q q' → (f p').eq (f q') = (f p).eq (f q)

/-- Does an author's code see the elements of a set in their order? -/
def Canonicalizer.readsSequences : Canonicalizer → Bool
  | throughShape shape => shape.readsSequences
  | stringQuotient _ _ => false
  | custom _ => true

def Canonicalizer.leaves : Canonicalizer → Value → Bool
  | throughShape shape, v => !(canonicalizeTry shape v).isOk
  | stringQuotient _ _, _ | custom _, _ => true

/-- No set with two different elements is in two values whose sets an author's
code sees, nor in two that are left as they are and the same but for the order
of their sets. -/
def Canonicalizer.IgnoresOrder (canonicalize : Canonicalizer) (p q : Value) : Prop :=
  if canonicalize.readsSequences = true then Uniform p ∧ Uniform q
  else canonicalize.leaves p = true → canonicalize.leaves q = true → SameSets p q →
    p.isOrderless = true ∧ q.isOrderless = true

theorem Value.Shuffled.kind {v w : Value} (h : Shuffled v w) : w.kind = v.kind := by
  cases h <;> rfl

theorem kind_eq_string {v : Value} (h : v.kind = "string") : ∃ s, v = .string s := by
  cases v with
  | string s => exact ⟨s, rfl⟩
  | _ => simp [Value.kind] at h

theorem kind_of_eq {v w : Value} (h : v.eq w = true) : v.kind = w.kind := by
  cases v <;> cases w <;> first | rfl | cases h

section

variable {α : Type} (parse : String → Option α) (render : α → Option String)

theorem kind_stringQuotientApply (v : Value) : (Canonicalizer.stringQuotientApply parse render v).kind = v.kind := by
  cases v with
  | string s =>
      rw [Canonicalizer.stringQuotientApply]
      cases (parse s).bind render <;> rfl
  | _ => rfl

theorem steady_stringQuotient (p q : Value) : Steady (Canonicalizer.stringQuotientApply parse render) p q ↔
    (SameSets p q → p.isOrderless = true ∧ q.isOrderless = true) := by
  by_cases hkind : p.kind = q.kind
  · by_cases hstring : p.kind = "string"
    · obtain ⟨s, rfl⟩ := kind_eq_string hstring
      obtain ⟨t, rfl⟩ := kind_eq_string (hkind ▸ hstring)
      refine iff_of_true ?_ fun _ => ⟨rfl, rfl⟩
      intro p' q' hp hq
      cases hp
      cases hq
      rfl
    · have hself : ∀ v : Value, v.kind = p.kind → Canonicalizer.stringQuotientApply parse render v = v := by
        intro v hv
        cases v with
        | string s => exact absurd hv.symm hstring
        | _ => rfl
      rw [← eq_shuffled_iff]
      refine forall_congr' fun p' => forall_congr' fun q' => forall_congr' fun hp => forall_congr' fun hq => ?_
      rw [hself p' hp.kind, hself q' (hq.kind.trans hkind.symm), hself p rfl, hself q hkind.symm]
  · have hne : ∀ p' q', Shuffled p p' → Shuffled q q' → p'.kind ≠ q'.kind := by
      intro p' q' hp hq
      rwa [hp.kind, hq.kind]
    have hfalse : ∀ p' q', Shuffled p p' → Shuffled q q' → (Canonicalizer.stringQuotientApply parse render p').eq
        (Canonicalizer.stringQuotientApply parse render q') = false := by
      intro p' q' hp hq
      rw [← Bool.not_eq_true]
      intro heq
      have hkinds := kind_of_eq heq
      rw [kind_stringQuotientApply, kind_stringQuotientApply] at hkinds
      exact hne p' q' hp hq hkinds
    refine iff_of_true ?_ ?_
    · intro p' q' hp hq
      rw [hfalse p' q' hp hq, hfalse p q (.refl p) (.refl q)]
    · rintro ⟨p', q', hp, hq, heq⟩
      exact absurd (kind_of_eq heq) (hne p' q' hp hq)

end

section

variable {α : Type} {shape : Shape α} {p q : Value}

theorem canonicalizeTry_shuffled (hshape : shape.readsSequences = false) (h : Shuffled p q) :
    canonicalizeTry shape p = canonicalizeTry shape q := by
  rw [canonicalizeTry, canonicalizeTry, shape.fill_shuffled hshape h]

theorem hasNoSets_of_canonicalizeTry (hshape : shape.readsSequences = false) {canonical : Value}
    (h : canonicalizeTry shape p = .ok canonical) : hasNoSets canonical = true := by
  obtain ⟨built, -, hpeek⟩ := Outcome.bind_eq_ok.mp h
  exact shape.hasNoSets_peekToValue hshape hpeek

theorem eq_shuffled_of_hasNoSets (hp : hasNoSets p = true) {q' : Value} (h : Shuffled q q') :
    p.eq q' = p.eq q := by
  rw [Bool.eq_iff_iff]
  constructor
  · intro heq
    rwa [(uniform_of_eq hp heq).eq_of_shuffled h.symm]
  · intro heq
    rwa [(uniform_of_eq hp heq).eq_of_shuffled h]

theorem throughShape_of_ok {canonical : Value} (h : canonicalizeTry shape p = .ok canonical) :
    canonicalizeThroughShape shape p = canonical := by
  simp only [canonicalizeThroughShape, h]

theorem throughShape_of_error {e : TypedError} (h : canonicalizeTry shape p = .error e) :
    canonicalizeThroughShape shape p = p := by
  simp only [canonicalizeThroughShape, h]

theorem steady_of_canonical (hshape : shape.readsSequences = false) {canonical : Value}
    (hp : canonicalizeTry shape p = .ok canonical) (q : Value) : Steady (canonicalizeThroughShape shape) p q := by
  intro p' q' hpp hqq
  have hp' := (canonicalizeTry_shuffled hshape hpp).symm.trans hp
  have hq' := canonicalizeTry_shuffled hshape hqq
  rw [throughShape_of_ok hp, throughShape_of_ok hp']
  cases hq : canonicalizeTry shape q with
  | ok other => rw [throughShape_of_ok hq, throughShape_of_ok (hq'.symm.trans hq)]
  | error e =>
      rw [throughShape_of_error hq, throughShape_of_error (hq'.symm.trans hq)]
      exact eq_shuffled_of_hasNoSets (hasNoSets_of_canonicalizeTry hshape hp) hqq

theorem Steady.symm {f : Value → Value} (h : Steady f q p) : Steady f p q := by
  intro p' q' hpp hqq
  rw [Value.eq_comm (f p'), Value.eq_comm (f p)]
  exact h q' p' hqq hpp

theorem steady_throughShape (hshape : shape.readsSequences = false) (p q : Value) :
    Steady (canonicalizeThroughShape shape) p q ↔ ((Canonicalizer.throughShape shape).leaves p = true →
      (Canonicalizer.throughShape shape).leaves q = true → SameSets p q →
        p.isOrderless = true ∧ q.isOrderless = true) := by
  simp only [Canonicalizer.leaves]
  cases hp : canonicalizeTry shape p with
  | ok canonical => exact iff_of_true (steady_of_canonical hshape hp q) fun h => by cases h
  | error e =>
      cases hq : canonicalizeTry shape q with
      | ok canonical => exact iff_of_true (steady_of_canonical hshape hq p).symm fun _ h => by cases h
      | error e' =>
          simp only [Except.isOk, Except.toBool, Bool.not_false, forall_const]
          rw [← eq_shuffled_iff]
          have hleft : ∀ {p'}, Shuffled p p' → canonicalizeThroughShape shape p' = p' := fun h =>
            throughShape_of_error ((canonicalizeTry_shuffled hshape h).symm.trans hp)
          have hright : ∀ {q'}, Shuffled q q' → canonicalizeThroughShape shape q' = q' := fun h =>
            throughShape_of_error ((canonicalizeTry_shuffled hshape h).symm.trans hq)
          refine forall₄_congr fun p' q' hpp hqq => ?_
          rw [hleft hpp, hright hqq, hleft (.refl p), hright (.refl q)]

end

theorem steady_iff {canonicalize : Canonicalizer} (h : canonicalize.readsSequences = false) (p q : Value) :
    Steady canonicalize.apply p q ↔ canonicalize.IgnoresOrder p q := by
  rw [Canonicalizer.IgnoresOrder, if_neg (by rw [h]; exact Bool.false_ne_true)]
  cases canonicalize with
  | throughShape shape => exact steady_throughShape h p q
  | stringQuotient parse render =>
      simp only [Canonicalizer.leaves, forall_const]
      exact steady_stringQuotient parse render p q
  | custom f => cases h

theorem steady_of_ignoresOrder {canonicalize : Canonicalizer} {p q : Value} (h : canonicalize.IgnoresOrder p q) :
    Steady canonicalize.apply p q := by
  by_cases hreads : canonicalize.readsSequences = true
  · rw [Canonicalizer.IgnoresOrder, if_pos hreads] at h
    intro p' q' hp hq
    rw [h.1.eq_of_shuffled hp, h.2.eq_of_shuffled hq]
  · exact (steady_iff (Bool.not_eq_true _ ▸ hreads) p q).mpr h

/-- A quotient position is kept: the values there, or around it, are equal after
canonicalization. -/
def KeptAt (canon : Canon) (prior proposed : Value) (path : List String) : Prop :=
  (∃ canonicalize, QuotientAt canon path canonicalize) ∧ ∃ upper, upper <+: path ∧ EquatedAt canon prior proposed upper

/-- The comparison of a quotient position, unless something around it is kept
already, ignores the order of sets. -/
def DecidesSteadily (among : Canonicalizer → Prop) (canon : Canon) (prior proposed : Value) : Prop :=
  ∀ path canonicalize p q, among canonicalize → QuotientAt canon path canonicalize → valueAt prior path = some p →
    valueAt proposed path = some q → (∀ upper, upper <+: path → upper ≠ path → ¬EquatedAt canon prior proposed upper) →
    canonicalize.IgnoresOrder p q

section

variable {canon : Canon} {prior proposed prior' proposed' : Value} {path : List String} {canonicalize : Canonicalizer}

theorem equatedAt_iff (hat : QuotientAt canon path canonicalize) : EquatedAt canon prior proposed path ↔
    ∃ p q, valueAt prior path = some p ∧ valueAt proposed path = some q ∧
      (canonicalize.apply p).eq (canonicalize.apply q) = true := by
  constructor
  · rintro ⟨canonicalize', p, q, hat', hp, hq, heq⟩
    obtain rfl := hat.unique hat'
    exact ⟨p, q, hp, hq, heq⟩
  · rintro ⟨p, q, hp, hq, heq⟩
    exact ⟨canonicalize, p, q, hat, hp, hq, heq⟩

theorem equatedAt_shuffled (hat : QuotientAt canon path canonicalize)
    (hsteady : ∀ p q, valueAt prior path = some p → valueAt proposed path = some q → Steady canonicalize.apply p q)
    (hprior : Shuffled prior prior') (hproposed : Shuffled proposed proposed') :
    EquatedAt canon prior' proposed' path ↔ EquatedAt canon prior proposed path := by
  rw [equatedAt_iff hat, equatedAt_iff hat]
  constructor
  · rintro ⟨p', q', hp', hq', heq⟩
    obtain ⟨p, hp, hpp⟩ := hprior.symm.valueAt hp'
    obtain ⟨q, hq, hqq⟩ := hproposed.symm.valueAt hq'
    exact ⟨p, q, hp, hq, (hsteady p q hp hq p' q' hpp.symm hqq.symm).symm.trans heq⟩
  · rintro ⟨p, q, hp, hq, heq⟩
    obtain ⟨p', hp', hpp⟩ := hprior.valueAt hp
    obtain ⟨q', hq', hqq⟩ := hproposed.valueAt hq
    exact ⟨p', q', hp', hq', (hsteady p q hp hq p' q' hpp hqq).trans heq⟩

theorem exists_outermost_equated (h : EquatedAt canon prior proposed path) :
    ∃ outer, outer <+: path ∧ EquatedAt canon prior proposed outer ∧
      ∀ upper, upper <+: outer → upper ≠ outer → ¬EquatedAt canon prior proposed upper := by
  induction hlen : path.length using Nat.strong_induction_on generalizing path with
  | _ n ih =>
      by_cases hupper : ∃ upper, upper <+: path ∧ upper ≠ path ∧ EquatedAt canon prior proposed upper
      · obtain ⟨upper, hpre, hne, hequated⟩ := hupper
        have hlt : upper.length < n := by
          rw [← hlen]
          exact lt_of_le_of_ne hpre.length_le fun heq => hne (hpre.eq_of_length heq)
        obtain ⟨outer, houter, hrest⟩ := ih _ hlt hequated rfl
        exact ⟨outer, houter.trans hpre, hrest⟩
      · push Not at hupper
        exact ⟨path, List.prefix_rfl, h, hupper⟩

theorem keptAt_shuffled (h : DecidesSteadily (fun _ => True) canon prior proposed) (hprior : Shuffled prior prior')
    (hproposed : Shuffled proposed proposed') (path : List String) :
    KeptAt canon prior' proposed' path ↔ KeptAt canon prior proposed path := by
  have hsteady : ∀ path canonicalize, QuotientAt canon path canonicalize →
      (∀ upper, upper <+: path → upper ≠ path → ¬EquatedAt canon prior proposed upper) →
      (EquatedAt canon prior' proposed' path ↔ EquatedAt canon prior proposed path) := by
    intro path canonicalize hat hfree
    refine equatedAt_shuffled hat (fun p q hp hq => ?_) hprior hproposed
    exact steady_of_ignoresOrder (h path canonicalize p q trivial hat hp hq hfree)
  apply and_congr_right
  intro _
  constructor
  · rintro ⟨upper, hpre, hequated⟩
    by_cases hfree : ∀ u, u <+: upper → u ≠ upper → ¬EquatedAt canon prior proposed u
    · obtain ⟨canonicalize, -, -, hat, -⟩ := id hequated
      exact ⟨upper, hpre, (hsteady upper canonicalize hat hfree).mp hequated⟩
    · push Not at hfree
      obtain ⟨u, hu, -, hequated⟩ := hfree
      exact ⟨u, hu.trans hpre, hequated⟩
  · rintro ⟨upper, hpre, hequated⟩
    obtain ⟨outer, houter, hequated, hfree⟩ := exists_outermost_equated hequated
    obtain ⟨canonicalize, -, -, hat, -⟩ := id hequated
    exact ⟨outer, houter.trans hpre, (hsteady outer canonicalize hat hfree).mpr hequated⟩

theorem decidesSteadily_of_keptAt (h : ∀ prior' proposed', Shuffled prior prior' → Shuffled proposed proposed' →
    ∀ path, KeptAt canon prior' proposed' path ↔ KeptAt canon prior proposed path) :
    DecidesSteadily (fun canonicalize => canonicalize.readsSequences = false) canon prior proposed := by
  intro path canonicalize p q hreads hat hp hq hfree
  rw [← steady_iff hreads]
  intro p' q' hpp hqq
  obtain ⟨prior', hprior, hp'⟩ := exists_shuffled hp hpp
  obtain ⟨proposed', hproposed, hq'⟩ := exists_shuffled hq hqq
  have hkept := h prior' proposed' hprior hproposed
  have hiff : EquatedAt canon prior' proposed' path ↔ EquatedAt canon prior proposed path := by
    constructor
    · intro hequated
      obtain ⟨-, upper, hpre, hupper⟩ := (hkept path).mp ⟨⟨canonicalize, hat⟩, path, List.prefix_rfl, hequated⟩
      by_cases hself : upper = path
      · rwa [hself] at hupper
      · exact absurd hupper (hfree upper hpre hself)
    · intro hequated
      obtain ⟨-, upper, hpre, hupper⟩ := (hkept path).mpr ⟨⟨canonicalize, hat⟩, path, List.prefix_rfl, hequated⟩
      by_cases hself : upper = path
      · rwa [hself] at hupper
      · obtain ⟨canonicalize', -, -, hat', -⟩ := id hupper
        obtain ⟨-, u, hu, hequated⟩ := (hkept upper).mp ⟨⟨canonicalize', hat'⟩, upper, List.prefix_rfl, hupper⟩
        refine absurd hequated (hfree u (hu.trans hpre) ?_)
        rintro rfl
        exact hself (hpre.eq_of_length (le_antisymm hpre.length_le hu.length_le))
  rw [Bool.eq_iff_iff]
  rw [equatedAt_iff hat, equatedAt_iff hat] at hiff
  simpa only [hp, hq, hp', hq', Option.some.injEq, exists_eq_left', exists_and_left] using hiff

end

/-- No set with two different elements is in the values of a `forceNew`
attribute that are the same but for the order of their sets. -/
def ReplacesSteadily (block : Block) (prior proposed : Value) : Prop :=
  ∀ attr ∈ block.attributes, attr.forceNew = true → ∀ x y, valueAt prior [attr.name] = some x →
    valueAt proposed [attr.name] = some y → SameSets x y → x.isOrderless = true ∧ y.isOrderless = true

section

variable {block : Block} {prior proposed prior' proposed' : Value} {attr : AttributeSchema}

theorem mem_requiresReplace_name :
    toAttributePath (Path.ofName attr.name) ∈ (plan prior proposed block).requiresReplace ↔
    (∃ fields, prior = .object fields) ∧ (∃ fields, proposed = .object fields) ∧ ∃ other ∈ block.attributes,
      other.forceNew = true ∧ other.name = attr.name ∧
        slotEq (valueAt prior [attr.name]) (valueAt proposed [attr.name]) = false := by
  constructor
  · intro h
    cases prior with
    | object priorFields =>
        cases proposed with
        | object proposedFields =>
            obtain ⟨other, hmem, hforce, hslot, hpath⟩ := mem_requiresReplace.mp h
            have hname : other.name = attr.name := by simpa [Path.ofName] using toAttributePath_injective hpath
            refine ⟨⟨_, rfl⟩, ⟨_, rfl⟩, other, hmem, hforce, hname, ?_⟩
            simpa [valueAt, hname] using hslot
        | _ => simp [requiresReplace_eq_nil] at h
    | _ => simp [requiresReplace_eq_nil] at h
  · rintro ⟨⟨priorFields, rfl⟩, ⟨proposedFields, rfl⟩, other, hmem, hforce, hname, hslot⟩
    refine mem_requiresReplace.mpr ⟨other, hmem, hforce, ?_, by rw [hname]⟩
    simpa [valueAt, hname] using hslot

theorem slotEq_shuffled {name : String} (hprior : Shuffled prior prior') (hproposed : Shuffled proposed proposed')
    (h : ∀ x y, valueAt prior [name] = some x → valueAt proposed [name] = some y → SameSets x y →
      x.isOrderless = true ∧ y.isOrderless = true) :
    slotEq (valueAt prior' [name]) (valueAt proposed' [name]) =
        slotEq (valueAt prior [name]) (valueAt proposed [name]) := by
  cases hx : valueAt prior [name] with
  | none =>
      rw [hprior.valueAt_eq_none hx]
      cases hy : valueAt proposed [name] with
      | none => rw [hproposed.valueAt_eq_none hy]
      | some y =>
          obtain ⟨y', hy', -⟩ := hproposed.valueAt hy
          rw [hy']
          rfl
  | some x =>
      obtain ⟨x', hx', hxx⟩ := hprior.valueAt hx
      rw [hx']
      cases hy : valueAt proposed [name] with
      | none => rw [hproposed.valueAt_eq_none hy]; rfl
      | some y =>
          obtain ⟨y', hy', hyy⟩ := hproposed.valueAt hy
          rw [hy']
          exact eq_shuffled_iff.mpr (h x y hx hy) x' y' hxx hyy

theorem requiresReplace_shuffled (h : ReplacesSteadily block prior proposed) (hprior : Shuffled prior prior')
    (hproposed : Shuffled proposed proposed') :
    (plan prior' proposed' block).requiresReplace = (plan prior proposed block).requiresReplace := by
  cases hprior with
  | object priorFields priorFields' hkeys hfields =>
      cases hproposed with
      | object proposedFields proposedFields' hkeys' hfields' =>
          simp only [plan_requiresReplace, requiresReplace]
          congr 1
          apply List.filter_congr
          intro attr ha
          cases hforce : attr.forceNew with
          | false => rfl
          | true =>
              have hslot := slotEq_shuffled (.object _ _ hkeys hfields) (.object _ _ hkeys' hfields') (h attr ha hforce)
              simp only [valueAt, Option.bind_fun_some] at hslot
              rw [hslot]
      | _ => rfl
  | _ => cases hproposed <;> rfl

theorem replacesSteadily_of_requiresReplace
    (h : ∀ prior' proposed', Shuffled prior prior' → Shuffled proposed proposed' →
    (plan prior' proposed' block).requiresReplace = (plan prior proposed block).requiresReplace) :
    ReplacesSteadily block prior proposed := by
  intro attr ha hforce x y hx hy
  rw [← eq_shuffled_iff]
  intro x' y' hxx hyy
  obtain ⟨prior', hprior, hx'⟩ := exists_shuffled hx hxx
  obtain ⟨proposed', hproposed, hy'⟩ := exists_shuffled hy hyy
  have hmem : ∀ {v w a b}, valueAt v [attr.name] = some a → valueAt w [attr.name] = some b →
      (toAttributePath (Path.ofName attr.name) ∈ (plan v w block).requiresReplace ↔ a.eq b = false) := by
    intro v w a b ha' hb
    rw [mem_requiresReplace_name, ha', hb]
    obtain ⟨fields, -, rfl, -, -⟩ := valueAt_cons ha'
    obtain ⟨fields', -, rfl, -, -⟩ := valueAt_cons hb
    constructor
    · rintro ⟨-, -, -, -, -, -, hslot⟩
      exact hslot
    · exact fun hslot => ⟨⟨_, rfl⟩, ⟨_, rfl⟩, attr, ha, hforce, rfl, hslot⟩
  have hiff := hmem hx' hy'
  rw [h prior' proposed' hprior hproposed, hmem hx hy] at hiff
  rw [Bool.eq_iff_iff, ← not_iff_not, Bool.not_eq_true, Bool.not_eq_true]
  exact hiff.symm

end

/-- Planning does not look at the order of sets: neither the replacement nor
what semantic equality keeps depends on it, and an attribute of which only the
order changed does not force replacement. -/
def OrderBlind (block : Block) (canon : Canon) (prior proposed : Value) : Prop :=
  (∀ prior' proposed', Shuffled prior prior' → Shuffled proposed proposed' →
    (plan prior' proposed' block).requiresReplace = (plan prior proposed block).requiresReplace ∧
      ∀ path, KeptAt canon prior' proposed' path ↔ KeptAt canon prior proposed path) ∧
  ∀ attr ∈ block.attributes, ∀ x y, valueAt prior [attr.name] = some x → valueAt proposed [attr.name] = some y →
    Shuffled x y → x.isNaNFree = true →
    toAttributePath (Path.ofName attr.name) ∉ (plan prior proposed block).requiresReplace

/-- Planning is blind to the order of sets when it replaces and decides
steadily; and it is only then, as far as no author's code sees that order. -/
theorem orderBlind_bounds (block : Block) (canon : Canon) (prior proposed : Value) :
    (ReplacesSteadily block prior proposed ∧ DecidesSteadily (fun _ => True) canon prior proposed →
      OrderBlind block canon prior proposed) ∧
    (OrderBlind block canon prior proposed → ReplacesSteadily block prior proposed ∧
      DecidesSteadily (fun canonicalize => canonicalize.readsSequences = false) canon prior proposed) := by
  constructor
  · rintro ⟨hreplace, hdecide⟩
    refine ⟨fun prior' proposed' hp hq => ⟨requiresReplace_shuffled hreplace hp hq, keptAt_shuffled hdecide hp hq⟩, ?_⟩
    intro attr ha x y hx hy hxy hnan hmem
    obtain ⟨-, -, other, hother, hforce, hname, hslot⟩ := mem_requiresReplace_name.mp hmem
    rw [← hname] at hx hy hslot
    have hself : y.eq y = true := eq_self_iff.mpr (hxy.symm.isNaNFree hnan)
    have hrigid := (hreplace other hother hforce x y hx hy ⟨y, y, hxy, .refl y, hself⟩).1
    rw [hx, hy, slotEq, hxy.eq hrigid hnan] at hslot
    cases hslot
  · rintro ⟨h, -⟩
    constructor
    · exact replacesSteadily_of_requiresReplace fun prior' proposed' hp hq => (h prior' proposed' hp hq).1
    · exact decidesSteadily_of_keptAt fun prior' proposed' hp hq => (h prior' proposed' hp hq).2

def zonesBlock : Block :=
  ⟨[{ AttributeSchema.new "zones" (.set .string) with required := true, forceNew := true }], []⟩

def zones (names : List String) : Value := .object (.ofList [("zones", .set (names.map .string))])

/-- The same zones in another order force the replacement. -/
theorem zones_replaced : (plan (zones ["a", "b"]) (zones ["b", "a"]) zonesBlock).requiresReplace =
      [toAttributePath (Path.ofName "zones")] ∧
    ¬OrderBlind zonesBlock Canon.new (zones ["a", "b"]) (zones ["b", "a"]) := by
  refine ⟨rfl, fun h => ?_⟩
  have hshuffled : Shuffled (.set [.string "a", .string "b"]) (.set [.string "b", .string "a"]) :=
    .set _ _ _ (List.forall₂_same.mpr fun v _ => .refl v) (List.Perm.swap _ _ [])
  exact h.2 _ (List.mem_singleton_self _) _ _ rfl rfl hshuffled rfl (List.mem_singleton_self _)

end TofuSdk
