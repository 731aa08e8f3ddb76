import TofuSdk.Normalize

namespace TofuSdk

open ValueOf

theorem Value.unknown_eq (v : Value) : Value.eq .unknown v = v.isUnknown := by
  cases v <;> rfl

theorem Value.null_eq (v : Value) : Value.eq .null v = v.isNull := by
  cases v <;> rfl

namespace Canonicalizer

/-- Is the canonical form of a known or null value other than the form of
unknown? A field that may be absent makes null of unknown. Any other shape
decodes unknown as a value of its own, for a proxied string the empty one. -/
def separates : Canonicalizer → Value → Bool
  | throughShape (.option t), v => !(canonicalizeThroughShape t.option v).isNull
  | throughShape shape, v => !(canonicalizeThroughShape shape .unknown).eq (canonicalizeThroughShape shape v)
  | stringQuotient _ _, _ => true
  | custom f, v => !(f .unknown).eq (f v)

theorem stringQuotientApply_isUnknown {α : Type} (parse : String → Option α) (render : α → Option String)
    (v : Value) : (stringQuotientApply parse render v).isUnknown = v.isUnknown := by
  cases v with
  | string s => cases h : (parse s).bind render <;> simp [stringQuotientApply, h, isUnknown]
  | _ => rfl

theorem separates_eq (canonicalize : Canonicalizer) {v : Value} (h : v.isUnknown = false) :
    canonicalize.separates v = !(canonicalize.apply .unknown).eq (canonicalize.apply v) := by
  cases canonicalize with
  | stringQuotient parse render =>
      have hunknown : stringQuotientApply parse render .unknown = .unknown := rfl
      rw [separates, apply, apply, hunknown, Value.unknown_eq, stringQuotientApply_isUnknown, h]
      rfl
  | custom f => rfl
  | throughShape shape =>
      cases shape with
      | option t => rw [separates, apply, apply, canonicalizeThroughShape_option_unknown, Value.null_eq]
      | _ => rfl

theorem apply_eq_apply (canonicalize : Canonicalizer) {p q : Value} (h : p.isUnknown ≠ q.isUnknown) :
    (canonicalize.apply p).eq (canonicalize.apply q) = !canonicalize.separates (if p.isUnknown then q else p) := by
  cases hp : p.isUnknown with
  | true =>
      have hq : q.isUnknown = false := by simpa [hp] using h.symm
      have hpu : p = .unknown := by cases p <;> first | rfl | cases hp
      rw [if_pos rfl, separates_eq canonicalize hq, Bool.not_not, hpu]
  | false =>
      have hq : q.isUnknown = true := by simpa [hp] using h.symm
      have hqu : q = .unknown := by cases q <;> first | rfl | cases hq
      rw [if_neg Bool.false_ne_true, separates_eq canonicalize hp, Bool.not_not, hqu, Value.eq_comm]

end Canonicalizer

theorem QuotientAt.unique {canon : Canon} {path : List String} {canonicalize canonicalize' : Canonicalizer}
    (h : QuotientAt canon path canonicalize) (h' : QuotientAt canon path canonicalize') :
    canonicalize = canonicalize' := by
  induction h with
  | field canon name canonicalize h =>
      cases h' with
      | field _ _ _ h' => exact Option.some.inj (h.symm.trans h')
      | block _ _ _ _ _ _ hnested => exact absurd rfl hnested.ne_nil
  | block canon name nested path canonicalize h hnested ih =>
      cases h' with
      | field => exact absurd rfl hnested.ne_nil
      | block _ _ nested' _ _ h' hnested' =>
          obtain rfl : nested = nested' := Option.some.inj (h.symm.trans h')
          exact ih hnested'

/-- Where exactly one of the values at a quotient position is unknown, the
pre-pass leaves the proposed one. -/
def KeepsUnknown (canon : Canon) (prior proposed : Value) : Prop :=
  ∀ path canonicalize p q, QuotientAt canon path canonicalize → valueAt prior path = some p →
    valueAt proposed path = some q → p.isUnknown ≠ q.isUnknown →
    valueAt (keepPrior prior proposed canon) path = some q

/-- Where exactly one of the values at a quotient position is unknown, the
canonicalizer tells the other from it. The second part only says something
about a model that gives a block the name of a quotient field. -/
def Separated (canon : Canon) (prior proposed : Value) : Prop :=
  ∀ path canonicalize p q, QuotientAt canon path canonicalize → valueAt prior path = some p →
    valueAt proposed path = some q → p.isUnknown ≠ q.isUnknown →
    canonicalize.separates (if p.isUnknown then q else p) = true ∧
      ∀ upper, upper <+: path → upper ≠ path → ¬EquatedAt canon prior proposed upper

theorem keepPrior_keepsUnknown_iff (canon : Canon) (prior proposed : Value) :
    KeepsUnknown canon prior proposed ↔ Separated canon prior proposed := by
  have hequated : ∀ path canonicalize p q, QuotientAt canon path canonicalize → valueAt prior path = some p →
      valueAt proposed path = some q → p.isUnknown ≠ q.isUnknown →
      (EquatedAt canon prior proposed path ↔ canonicalize.separates (if p.isUnknown then q else p) = false) := by
    intro path canonicalize p q hat hp hq hone
    have happly := canonicalize.apply_eq_apply hone
    constructor
    · rintro ⟨canonicalize', p', q', hat', hp', hq', heq⟩
      obtain rfl := hat.unique hat'
      obtain rfl := Option.some.inj (hp.symm.trans hp')
      obtain rfl := Option.some.inj (hq.symm.trans hq')
      simpa [happly] using heq
    · intro hsep
      exact ⟨canonicalize, p, q, hat, hp, hq, by rw [happly, hsep]; rfl⟩
  constructor
  · intro h path canonicalize p q hat hp hq hone
    have hno := (valueAt_keepPrior hat hp hq hone).mp (h path canonicalize p q hat hp hq hone)
    refine ⟨?_, fun upper hupper _ => hno upper hupper⟩
    rw [← Bool.not_eq_false, ← hequated path canonicalize p q hat hp hq hone]
    exact hno path (List.prefix_refl path)
  · intro h path canonicalize p q hat hp hq hone
    obtain ⟨hsep, hupper⟩ := h path canonicalize p q hat hp hq hone
    apply (valueAt_keepPrior hat hp hq hone).mpr
    intro upper hprefix
    by_cases hpath : upper = path
    · rw [hpath, hequated path canonicalize p q hat hp hq hone, hsep]
      exact Bool.true_eq_false_eq_False
    · exact hupper upper hprefix hpath

def ciId : Shape String := .proxy (.scalar .string) (fun s => .ok s.toLower) .ok

def aliasModel : Shape (Option String × Unit) := .struct (.cons { name := "alias" } (.option ciId) .nil)

/-- An absent alias that is about to become known is planned as absent. -/
theorem unknown_alias_lost :
    ¬KeepsUnknown aliasModel.harvestShape (.object (OrdMap.ofList [("alias", .null)]))
      (.object (OrdMap.ofList [("alias", .unknown)])) := by
  intro h
  have hkept := h ["alias"] (.throughShape (.option ciId)) .null .unknown (.field _ _ _ rfl) rfl rfl (by decide)
  cases hkept

end TofuSdk
