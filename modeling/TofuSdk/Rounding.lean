import TofuSdk.JsText

namespace TofuSdk

namespace Outcome

variable {ε α β γ : Type}

theorem map_mapM (f : β → γ) (g : α → Except ε β) (xs : List α) :
    List.map f <$> xs.mapM g = xs.mapM fun x => f <$> g x := by
  induction xs with
  | nil => rfl
  | cons x xs ih =>
      rw [List.mapM_cons, List.mapM_cons, ← ih]
      cases g x with
      | error e => rfl
      | ok b => cases xs.mapM g <;> rfl

theorem map_comm {β' : Type} {f : β → γ} {g : α → β} {f' : β' → γ} {g' : α → β'} (h : ∀ a, f (g a) = f' (g' a))
    (x : Except ε α) : f <$> g <$> x = f' <$> g' <$> x := by
  cases x with
  | error e => rfl
  | ok a => exact congrArg Except.ok (h a)

theorem map_mapM_congr {α' β' : Type} {f : β → γ} {f' : β' → γ} {g : α → Except ε β} {g' : α' → Except ε β'}
    {r : α → α'} {xs : List α} (h : ∀ x ∈ xs, f' <$> g' (r x) = f <$> g x) :
    List.map f' <$> (xs.map r).mapM g' = List.map f <$> xs.mapM g := by
  rw [map_mapM, map_mapM, List.mapM_map]
  exact mapM_congr h

end Outcome

namespace BinaryFloat

variable {ew mw : Nat}

theorem value_unsignedZero (x : BinaryFloat ew mw) : x.unsignedZero.value = x.value := by
  rw [unsignedZero]
  split_ifs with hzero
  · rw [hzero, value_zero]
  · rfl

/-- An integer of no more bits than the fraction is rounded to itself, and
any other one to a number of more bits. -/
theorem eq_of_value_ofInt {n i : Int} (hbias : 0 < bias ew) (hfinite : (ofInt n : BinaryFloat ew mw).isFinite = true)
    (hvalue : (ofInt n : BinaryFloat ew mw).value = i) (hi : |i| < 2 ^ (mw + 1)) : n = i := by
  by_cases hn : n = 0
  · subst hn
    have hzero : (ofInt 0 : BinaryFloat ew mw).value = 0 := by simp [ofInt, ofRat, value, significand, zero]
    rw [hzero] at hvalue
    exact_mod_cast hvalue
  have hq : (n : Rat) ≠ 0 := by exact_mod_cast hn
  have h : packed ew mw n / 2 ^ mw < 2 ^ ew - 1 := by
    by_contra hover
    rw [ofInt, ofRat, if_neg hq, if_pos (not_lt.mp hover)] at hfinite
    simp [isFinite, infinity] at hfinite
  rw [ofInt, value_ofRat hq h] at hvalue
  by_cases hle : leading ew (n : Rat) ≤ mw
  · obtain ⟨k, hk⟩ : ∃ k : Nat, (mw : Int) - leading ew n = k := ⟨_, (Int.toNat_of_nonneg (by omega)).symm⟩
    have hneg : leading ew (n : Rat) - mw = -(k : Int) := by omega
    have hint : |(n : Rat)| / 2 ^ (-(k : Int)) = ((|n| * 2 ^ k : Int) : Rat) := by
      rw [zpow_neg, zpow_natCast, div_inv_eq_mul]
      push_cast
      rfl
    have hm : (mantissa ew mw (n : Rat) : Rat) = |(n : Rat)| * 2 ^ k := by
      have hnn : 0 ≤ |n| * 2 ^ k := by positivity
      have hcast : (((|n| * 2 ^ k).toNat : Int) : Rat) = ((|n| * 2 ^ k : Int) : Rat) := by
        rw [Int.toNat_of_nonneg hnn]
      rw [mantissa, hneg, hint, roundEven_int]
      push_cast at hcast ⊢
      exact_mod_cast hcast
    have hself : (if (n : Rat) < 0 then -1 else 1 : Rat) * |(n : Rat)| = n := by
      split_ifs with hlt
      · rw [abs_of_neg hlt, neg_one_mul, neg_neg]
      · rw [abs_of_nonneg (not_lt.mp hlt), one_mul]
    rw [hm, hneg, zpow_neg, zpow_natCast, ← mul_assoc, mul_assoc,
      mul_inv_cancel₀ (by positivity : (2 : Rat) ^ k ≠ 0), mul_one, hself] at hvalue
    exact_mod_cast hvalue
  · exfalso
    have hmantissa : ((2 ^ mw : Nat) : Rat) ≤ mantissa ew mw (n : Rat) := by
      exact_mod_cast le_mantissa hq (by omega)
    have hscale : (2 : Rat) ≤ 2 ^ (leading ew (n : Rat) - mw) := by
      calc (2 : Rat) = 2 ^ (1 : Int) := by norm_num
        _ ≤ 2 ^ (leading ew (n : Rat) - mw) := zpow_le_zpow_right₀ (by norm_num) (by omega)
    have habs : |(i : Rat)| = mantissa ew mw (n : Rat) * 2 ^ (leading ew (n : Rat) - mw) := by
      have hone : |(if (n : Rat) < 0 then -1 else 1 : Rat)| = 1 := by split_ifs <;> simp
      rw [← hvalue, abs_mul, abs_mul, hone, one_mul, abs_of_nonneg (by positivity), abs_of_nonneg (by positivity)]
    have hbig : ((2 ^ (mw + 1) : Int) : Rat) ≤ |(i : Rat)| := by
      rw [habs, pow_succ]
      push_cast
      exact mul_le_mul (by exact_mod_cast hmantissa) hscale (by norm_num) (by positivity)
    have hlt : ((|i| : Int) : Rat) < ((2 ^ (mw + 1) : Int) : Rat) := by exact_mod_cast hi
    rw [Int.cast_abs] at hlt
    exact absurd hlt (not_lt.mpr hbig)

end BinaryFloat

namespace Number

def rounded (n : Number) : F64 := n.toF64Lossy.unsignedZero

theorem exists_exact {n : Number} (h : n.isFinite = true) : ∃ q, n.exact = .finite q := by
  cases n with
  | i64 i => exact ⟨_, rfl⟩
  | u64 u => exact ⟨_, rfl⟩
  | f64 f => exact ⟨_, if_pos h⟩

theorem rounded_eq {n : Number} {q : Rat} (h : n.exact = .finite q) :
    n.rounded = (BinaryFloat.ofRat q : F64).unsignedZero := by
  cases n with
  | i64 i => exact congrArg (fun q => (BinaryFloat.ofRat q : F64).unsignedZero) (ExtRat.finite.inj h)
  | u64 u => exact congrArg (fun q => (BinaryFloat.ofRat q : F64).unsignedZero) (ExtRat.finite.inj h)
  | f64 f =>
      have hfinite : f.isFinite = true := by
        by_contra hnot
        rw [exact, BinaryFloat.exact] at h
        split_ifs at h
      rw [exact, BinaryFloat.exact, if_pos hfinite] at h
      obtain rfl := ExtRat.finite.inj h
      exact (BinaryFloat.unsignedZero_ofRat_value hfinite).symm

theorem exact_of_rounded {n : Number} {i : Int} (h : n.isFinite = true) (hvalue : n.rounded.value = i)
    (hi : |i| < 2 ^ 53) : n.exact = .finite i := by
  have hvalue' : n.toF64Lossy.value = i := by
    rw [← hvalue, rounded, BinaryFloat.value_unsignedZero]
  cases n with
  | i64 m =>
      have hspec := ofInt_spec (abs_toInt_lt m)
      rw [exact, BinaryFloat.eq_of_value_ofInt (by decide) hspec.1 hvalue' hi]
  | u64 m =>
      have hspec := ofInt_spec (abs_toNat_lt m)
      have hm := BinaryFloat.eq_of_value_ofInt (by decide) hspec.1 hvalue' hi
      rw [exact, ← hm]
      rfl
  | f64 x =>
      have hfinite : x.isFinite = true := h
      rw [exact, BinaryFloat.exact, if_pos hfinite]
      exact congrArg ExtRat.finite hvalue'

theorem rounded_readsNumber {n : VNumber} {m : Number} (h : ReadsNumber n m) : m.rounded = n.number.rounded := by
  cases h with
  | integer _ _ hexact hfinite _ _ =>
      obtain ⟨q, hq⟩ := exists_exact hfinite
      rw [rounded_eq hq, rounded_eq (hexact.symm.trans hq)]
  | float f _ => rfl
  | signed f hexact =>
      have hf : (Number.f64 f).exact = .finite (2 ^ 63) := hexact
      rw [rounded_eq hf]
      decide +kernel
  | unsigned f hexact =>
      have hf : (Number.f64 f).exact = .finite (2 ^ 64) := hexact
      rw [rounded_eq hf]
      decide +kernel

theorem rounded_jsonNumber (hnum : crates.CountsNumbers) (n : VNumber) :
    (jsonNumber crates n).rounded = n.number.rounded := rounded_readsNumber (readsNumber_jsonNumber hnum n)

theorem rounded_rounded (n : VNumber) : n.rounded.number.rounded = n.number.rounded :=
  BinaryFloat.unsignedZero_unsignedZero _

end Number

def Value.rounded (v : Value) : ValueOf F64 := v.mapNumber Number.rounded

namespace Value

theorem rounded_list (items : List Value) : rounded (.list items) = .list (items.map rounded) :=
  congrArg ValueOf.list (ValueOf.mapNumbers_eq_map _ _)

theorem rounded_set (items : List Value) : rounded (.set items) = .set (items.map rounded) :=
  congrArg ValueOf.set (ValueOf.mapNumbers_eq_map _ _)

theorem rounded_tuple (items : List Value) : rounded (.tuple items) = .tuple (items.map rounded) :=
  congrArg ValueOf.tuple (ValueOf.mapNumbers_eq_map _ _)

theorem rounded_map (entries : Fields) : rounded (.map entries) = .map (entries.map rounded) :=
  congrArg ValueOf.map (ValueOf.mapNumberFields_eq_map _ _)

theorem rounded_object (fields : Fields) : rounded (.object fields) = .object (fields.map rounded) :=
  congrArg ValueOf.object (ValueOf.mapNumberFields_eq_map _ _)

end Value

section

variable {json : Json}

@[simp] theorem Json.isNull_rounded (json : Json) : json.rounded.isNull = json.isNull := by
  cases json with
  | number n | array items | object fields => simp [isNull]
  | _ => rfl

theorem Json.asArray_rounded (json : Json) (expected : String) :
    json.rounded.asArray expected = List.map rounded <$> json.asArray expected := by
  cases json with
  | number n | array items | object fields => simp [asArray, mismatch, kind]
  | _ => rfl

theorem Json.asObject_rounded (json : Json) (expected : String) :
    json.rounded.asObject expected = OrdMap.map rounded <$> json.asObject expected := by
  cases json with
  | number n | array items | object fields => simp [asObject, mismatch, kind]
  | _ => rfl

theorem rounded_foldlM_insert {α α' : Type} (key : α → String) (key' : α' → String) (r : α → α')
    {g : α → Except CodecError Value} {g' : α' → Except CodecError Value} {xs : List α}
    (hkey : ∀ x ∈ xs, key' (r x) = key x)
    (h : ∀ x ∈ xs, Value.rounded <$> g' (r x) = Value.rounded <$> g x) :
    OrdMap.map Value.rounded <$>
        (xs.map r).foldlM (fun m x => (fun v => m.insert (key' x) v) <$> g' x) OrdMap.empty =
      OrdMap.map Value.rounded <$> xs.foldlM (fun m x => (fun v => m.insert (key x) v) <$> g x) OrdMap.empty := by
  have hpairs : ∀ ps : List (String × Value),
      OrdMap.map Value.rounded (ps.foldl (fun m p => m.insert p.1 p.2) OrdMap.empty) =
        OrdMap.ofList (ps.map fun p => (p.1, p.2.rounded)) := fun ps => OrdMap.map_ofList _ _
  rw [Outcome.foldlM_insert, Outcome.foldlM_insert, Outcome.map_comm hpairs, Outcome.map_comm hpairs]
  refine congrArg (OrdMap.ofList <$> ·) (Outcome.map_mapM_congr fun x hx => ?_)
  have hpair : ∀ read : Except CodecError Value,
      (fun p : String × Value => (p.1, p.2.rounded)) <$> Prod.mk (key x) <$> read =
      Prod.mk (key x) <$> Value.rounded <$> read := Outcome.map_comm fun _ => rfl
  rw [hkey x hx]
  exact (hpair _).trans ((congrArg (Prod.mk (key x) <$> ·) (h x hx)).trans (hpair _).symm)

theorem decodeJsonDynamic_rounded (hnum : crates.CountsNumbers) (json : Json) :
    Value.rounded <$> decodeJsonDynamic crates json.rounded = Value.rounded <$> decodeJsonDynamic crates json := by
  induction json using Json.induct with
  | null | bool b | string s | other => rfl
  | number n =>
      rw [Json.rounded_number]
      refine congrArg (Except.ok ∘ ValueOf.number) ?_
      rw [Number.rounded_jsonNumber hnum, Number.rounded_jsonNumber hnum, Number.rounded_rounded]
  | array items ih =>
      rw [Json.rounded_array, decodeJsonDynamic, decodeJsonDynamic, decodeJsonItems_eq, decodeJsonItems_eq,
        Outcome.map_comm Value.rounded_tuple, Outcome.map_comm Value.rounded_tuple]
      exact congrArg (ValueOf.tuple <$> ·) (Outcome.map_mapM_congr ih)
  | object fields ih =>
      rw [Json.rounded_object, decodeJsonDynamic, decodeJsonDynamic, decodeJsonFields_eq, decodeJsonFields_eq,
        Outcome.map_comm Value.rounded_object, Outcome.map_comm Value.rounded_object, OrdMap.toList_map]
      refine congrArg (ValueOf.object <$> ·) (rounded_foldlM_insert _ _ _ (fun p _ => rfl) fun p hp => ?_)
      exact ih p.1 p.2 (OrdMap.mem_toList.mp hp)

theorem rounded_asArray {α β : Type} {expected : String} {read : List Json → Except CodecError α} {f : α → β}
    (h : ∀ items, json = .array items → f <$> read (items.map Json.rounded) = f <$> read items) :
    f <$> (json.rounded.asArray expected >>= read) = f <$> (json.asArray expected >>= read) := by
  rw [Json.asArray_rounded]
  cases json with
  | array items => exact h items rfl
  | _ => rfl

theorem rounded_asObject {α β : Type} {expected : String} {read : OrdMap String Json → Except CodecError α} {f : α → β}
    (h : ∀ fields, json = .object fields → f <$> read (fields.map Json.rounded) = f <$> read fields) :
    f <$> (json.rounded.asObject expected >>= read) = f <$> (json.asObject expected >>= read) := by
  rw [Json.asObject_rounded]
  cases json with
  | object fields => exact h fields rfl
  | _ => rfl

/-- What is decoded of a document that was rounded is what is decoded of the
document, rounded; an error stays the same. -/
theorem decodeJson_rounded (hnum : crates.CountsNumbers) (json : Json) (ty : Ty) :
    Value.rounded <$> decodeJson crates json.rounded ty = Value.rounded <$> decodeJson crates json ty := by
  induction ty using Ty.induct generalizing json with
  | bool | string =>
      cases json with
      | number n =>
          rw [Json.rounded_number]
          rfl
      | array items =>
          rw [Json.rounded_array]
          rfl
      | object fields =>
          rw [Json.rounded_object]
          rfl
      | _ => rfl
  | number =>
      cases json with
      | number n =>
          rw [Json.rounded_number]
          refine congrArg (Except.ok ∘ ValueOf.number) ?_
          rw [Number.rounded_jsonNumber hnum, Number.rounded_jsonNumber hnum, Number.rounded_rounded]
      | array items =>
          rw [Json.rounded_array]
          rfl
      | object fields =>
          rw [Json.rounded_object]
          rfl
      | _ => rfl
  | dynamic =>
      rw [decodeJson, decodeJson, Json.isNull_rounded]
      split_ifs
      · rfl
      · exact decodeJsonDynamic_rounded hnum json
  | list elem ih =>
      rw [decodeJson, decodeJson, Json.isNull_rounded]
      split_ifs
      · rfl
      · refine rounded_asArray fun items _ => ?_
        rw [Outcome.map_comm Value.rounded_list, Outcome.map_comm Value.rounded_list]
        exact congrArg (ValueOf.list <$> ·) (Outcome.map_mapM_congr fun json _ => ih json)
  | set elem ih =>
      rw [decodeJson, decodeJson, Json.isNull_rounded]
      split_ifs
      · rfl
      · refine rounded_asArray fun items _ => ?_
        rw [Outcome.map_comm Value.rounded_set, Outcome.map_comm Value.rounded_set]
        exact congrArg (ValueOf.set <$> ·) (Outcome.map_mapM_congr fun json _ => ih json)
  | tuple elems ih =>
      rw [decodeJson, decodeJson, Json.isNull_rounded]
      split_ifs
      · rfl
      · refine rounded_asArray fun items _ => ?_
        rw [List.length_map]
        split_ifs
        · rfl
        · rw [Outcome.map_comm Value.rounded_tuple, Outcome.map_comm Value.rounded_tuple, decodeJsonZip_eq,
            decodeJsonZip_eq, List.zip_map_left]
          exact congrArg (ValueOf.tuple <$> ·)
            (Outcome.map_mapM_congr fun p hp => ih p.2 (List.of_mem_zip hp).2 p.1)
  | map elem ih =>
      rw [decodeJson, decodeJson, Json.isNull_rounded]
      split_ifs
      · rfl
      · refine rounded_asObject fun fields _ => ?_
        rw [Outcome.map_comm Value.rounded_map, Outcome.map_comm Value.rounded_map, OrdMap.toList_map]
        exact congrArg (ValueOf.map <$> ·) (rounded_foldlM_insert _ _ _ (fun p _ => rfl) fun p _ => ih p.2)
  | object attrs ih =>
      rw [decodeJson, decodeJson, Json.isNull_rounded]
      split_ifs
      · rfl
      · refine rounded_asObject fun fields _ => ?_
        rw [Outcome.map_comm Value.rounded_object, Outcome.map_comm Value.rounded_object, decodeJsonAttrs_eq,
          decodeJsonAttrs_eq]
        refine congrArg (ValueOf.object <$> ·) ?_
        have hattr : ∀ attr ∈ attrs, Value.rounded <$> decodeJsonAttr crates (fields.map Json.rounded) attr =
            Value.rounded <$> decodeJsonAttr crates fields attr := by
          intro attr ha
          rw [decodeJsonAttr, decodeJsonAttr, OrdMap.get?_map]
          cases fields.get? attr.name with
          | none => rfl
          | some json => exact ih attr ha json
        have hread := rounded_foldlM_insert ObjectAttrOf.name ObjectAttrOf.name id (fun _ _ => rfl) hattr
        rwa [List.map_id] at hread

end

end TofuSdk
