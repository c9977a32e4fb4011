/-
  Which messages match a pattern of the message filter.
-/
import TerpCore.SmartAccount.Authenticators
import Mathlib.Logic.Relation
import Mathlib.Order.Defs.Unbundled

namespace SmartAccount

open Lib Outcome List

/-! ## Values -/

@[elab_as_elim]
theorem JSONValue.induct {P : JSONValue → Prop} (null : P .null) (bool : ∀ b, P (.bool b)) (number : P .number)
    (string : ∀ s, P (.string s)) (array : ∀ items, (∀ v ∈ items, P v) → P (.array items))
    (object : ∀ fields, (∀ f ∈ fields, P f.2) → P (.object fields)) : ∀ v, P v
  | .null => null
  | .bool b => bool b
  | .number => number
  | .string s => string s
  | .array items => array items fun v _ => induct null bool number string array object v
  | .object fields => object fields fun f _ => induct null bool number string array object f.2
decreasing_by
  · have := sizeOf_lt_of_mem ‹v ∈ items›
    simp only [JSONValue.array.sizeOf_spec]
    omega
  · have hmem := sizeOf_lt_of_mem ‹f ∈ fields›
    have hsnd : sizeOf f.2 < sizeOf f := by
      obtain ⟨key, v⟩ := f
      simp only [Prod.mk.sizeOf_spec]
      omega
    simp only [JSONValue.object.sizeOf_spec]
    omega

/-- No object has a key twice, as in the maps that `json.Unmarshal` makes. -/
inductive JSONValue.KeysDistinct : JSONValue → Prop
  | null : KeysDistinct .null
  | bool (b : Bool) : KeysDistinct (.bool b)
  | number : KeysDistinct .number
  | string (s : Bytes) : KeysDistinct (.string s)
  | array {items : List JSONValue} : (∀ v ∈ items, KeysDistinct v) → KeysDistinct (.array items)
  | object {fields : List (Bytes × JSONValue)} : (fields.map Prod.fst).Nodup → (∀ f ∈ fields, KeysDistinct f.2) →
      KeysDistinct (.object fields)

theorem checkItemsForFloats_eq_false {items : List JSONValue} :
    checkItemsForFloats items = false ↔ ∀ v ∈ items, checkForFloats v = false := by
  induction items with
  | nil => simp
  | cons v rest ih => simp [ih]

variable {fields : List (Bytes × JSONValue)}

theorem checkFieldsForFloats_eq_false :
    checkFieldsForFloats fields = false ↔ ∀ f ∈ fields, checkForFloats f.2 = false := by
  induction fields with
  | nil => simp
  | cons f rest ih => simp only [checkFieldsForFloats, Bool.or_eq_false_iff, ih, forall_mem_cons]

theorem mem_of_lookup {key : Bytes} {v : JSONValue} (h : fields.lookup key = some v) : (key, v) ∈ fields := by
  obtain ⟨before, after, rfl, -⟩ := lookup_eq_some_iff.mp h
  simp

theorem lookup_of_mem (hkeys : (fields.map Prod.fst).Nodup) {f : Bytes × JSONValue}
    (hf : f ∈ fields) : fields.lookup f.1 = some f.2 := by
  induction fields with
  | nil => cases hf
  | cons g rest ih =>
    rw [map_cons, nodup_cons] at hkeys
    rcases mem_cons.mp hf with rfl | hf
    · exact lookup_cons_self
    · have hne : (f.1 == g.1) = false := by
        rw [beq_eq_false_iff_ne]
        intro heq
        exact hkeys.1 (heq ▸ mem_map_of_mem hf)
      rw [lookup_cons, hne]
      exact ih hkeys.2 hf

/-! ## Matching, key by key and index by index -/

section matching

variable {dec : Bytes → Option ℤ}

theorem compareStrings_eq_ok {av bv : Bytes} : compareStrings dec av bv = .ok () ↔ av = bv := by
  unfold compareStrings
  constructor
  · intro h
    split at h <;> obtain ⟨_, -, h⟩ := bind_eq_ok.mp h <;> simpa using h
  · rintro rfl
    cases dec av <;> simp [require]

variable {av before after : List (Bytes × JSONValue)} {b v : JSONValue}

theorem fieldsSuperset_eq_ok {bv : List (Bytes × JSONValue)} : fieldsSuperset dec av bv = .ok () ↔
    ∀ f ∈ av, ∃ vb, bv.lookup f.1 = some vb ∧ isSuperset dec f.2 vb = .ok () := by
  induction av with
  | nil => simp
  | cons f rest ih =>
    obtain ⟨key, va⟩ := f
    rw [fieldsSuperset, forall_mem_cons, ← ih]
    cases bv.lookup key with
    | none => simp
    | some vb =>
      simp only [bind_eq_ok, Option.some.injEq, exists_eq_left']
      constructor
      · rintro ⟨_, h⟩
        exact h
      · intro h
        exact ⟨(), h⟩

theorem itemsSuperset_eq_ok {av bv : List JSONValue} : itemsSuperset dec av bv = .ok () ↔
    ∀ (i : ℕ) va, av[i]? = some va → ∃ vb, bv[i]? = some vb ∧ isSuperset dec va vb = .ok () := by
  induction av generalizing bv with
  | nil => simp
  | cons va rest ih =>
    cases bv with
    | nil =>
      refine iff_of_false (by simp) fun h => ?_
      obtain ⟨vb, hvb, -⟩ := h 0 va rfl
      cases hvb
    | cons vb bv =>
      rw [itemsSuperset, bind_eq_ok]
      constructor
      · rintro ⟨_, hhead, htail⟩ i va' hva'
        cases i with
        | zero =>
          cases hva'
          exact ⟨vb, rfl, hhead⟩
        | succ i => exact ih.mp htail i va' hva'
      · intro h
        obtain ⟨vb', hvb', hhead⟩ := h 0 va rfl
        cases hvb'
        exact ⟨(), hhead, ih.mpr fun i va' hva' => h (i + 1) va' hva'⟩

theorem isSuperset_object :
    isSuperset dec (.object av) b = .ok () ↔ ∃ bv, b = .object bv ∧
      ∀ f ∈ av, ∃ vb, bv.lookup f.1 = some vb ∧ isSuperset dec f.2 vb = .ok () := by
  cases b with
  | object bv => simp only [isSuperset, fieldsSuperset_eq_ok, JSONValue.object.injEq, exists_eq_left']
  | _ => simp

theorem isSuperset_array {av : List JSONValue} :
    isSuperset dec (.array av) b = .ok () ↔ ∃ bv, b = .array bv ∧
      ∀ (i : ℕ) va, av[i]? = some va → ∃ vb, bv[i]? = some vb ∧ isSuperset dec va vb = .ok () := by
  cases b with
  | array bv =>
    simp only [isSuperset, JSONValue.array.injEq, exists_eq_left', ← itemsSuperset_eq_ok]
    split
    · next hshort =>
        -- the element after the last of `bv` has no counterpart
        refine iff_of_false (by simp) fun h => ?_
        obtain ⟨vb, hvb, -⟩ := itemsSuperset_eq_ok.mp h bv.length _ (List.getElem?_eq_getElem hshort)
        simp at hvb
    · rfl
  | _ => simp

theorem isSuperset_string {av : Bytes} : isSuperset dec (.string av) b = .ok () ↔ b = .string av := by
  cases b with
  | string bv => simp only [isSuperset, compareStrings_eq_ok, JSONValue.string.injEq, eq_comm]
  | _ => simp

theorem isSuperset_bool {av : Bool} : isSuperset dec (.bool av) b = .ok () ↔ b = .bool av := by
  cases b with
  | bool bv => rw [isSuperset, require_eq_ok, decide_eq_true_eq, JSONValue.bool.injEq, eq_comm]
  | _ => simp

theorem isSuperset_null : isSuperset dec .null b = .ok () ↔ b = .null := by
  cases b <;> simp

theorem not_isSuperset_number : isSuperset dec .number b ≠ .ok () := by
  simp

/-! ## A preorder -/

theorem isSuperset_refl (hkeys : v.KeysDistinct) (hfloats : checkForFloats v = false) :
    isSuperset dec v v = .ok () := by
  induction v using JSONValue.induct with
  | null => exact isSuperset_null.mpr rfl
  | bool b => exact isSuperset_bool.mpr rfl
  | number => cases hfloats
  | string s => exact isSuperset_string.mpr rfl
  | array items ih =>
    cases hkeys with
    | array hitems =>
      rw [checkForFloats, checkItemsForFloats_eq_false] at hfloats
      refine isSuperset_array.mpr ⟨items, rfl, fun i va hva => ⟨va, hva, ?_⟩⟩
      have hmem := mem_of_getElem? hva
      exact ih va hmem (hitems va hmem) (hfloats va hmem)
  | object fields ih =>
    cases hkeys with
    | object hnodup hfields =>
      rw [checkForFloats, checkFieldsForFloats_eq_false] at hfloats
      refine isSuperset_object.mpr ⟨fields, rfl, fun f hf => ⟨f.2, lookup_of_mem hnodup hf, ?_⟩⟩
      exact ih f hf (hfields f hf) (hfloats f hf)

theorem isSuperset_trans {a c : JSONValue} (hab : isSuperset dec a b = .ok ())
    (hbc : isSuperset dec b c = .ok ()) : isSuperset dec a c = .ok () := by
  induction a using JSONValue.induct generalizing b c with
  | null =>
    obtain rfl := isSuperset_null.mp hab
    exact hbc
  | bool av =>
    obtain rfl := isSuperset_bool.mp hab
    exact hbc
  | number => exact absurd hab not_isSuperset_number
  | string av =>
    obtain rfl := isSuperset_string.mp hab
    exact hbc
  | array av ih =>
    obtain ⟨bv, rfl, hav⟩ := isSuperset_array.mp hab
    obtain ⟨cv, rfl, hbv⟩ := isSuperset_array.mp hbc
    refine isSuperset_array.mpr ⟨cv, rfl, fun i va hva => ?_⟩
    obtain ⟨vb, hvb, hvab⟩ := hav i va hva
    obtain ⟨vc, hvc, hvbc⟩ := hbv i vb hvb
    exact ⟨vc, hvc, ih va (mem_of_getElem? hva) hvab hvbc⟩
  | object av ih =>
    obtain ⟨bv, rfl, hav⟩ := isSuperset_object.mp hab
    obtain ⟨cv, rfl, hbv⟩ := isSuperset_object.mp hbc
    refine isSuperset_object.mpr ⟨cv, rfl, fun f hf => ?_⟩
    obtain ⟨vb, hvb, hvab⟩ := hav f hf
    obtain ⟨vc, hvc, hvbc⟩ := hbv (f.1, vb) (mem_of_lookup hvb)
    exact ⟨vc, hvc, ih f hf hvab hvbc⟩

/-! ## Additions -/

/-- The second value has one thing more, somewhere in it: a new key of an object or a new last element of an array. -/
inductive Adds : JSONValue → JSONValue → Prop
  | key {before after : List (Bytes × JSONValue)} {key : Bytes} {v : JSONValue} :
      key ∉ (before ++ after).map Prod.fst →
      Adds (.object (before ++ after)) (.object (before ++ (key, v) :: after))
  | tail {items : List JSONValue} {v : JSONValue} : Adds (.array items) (.array (items ++ [v]))
  | inField {before after : List (Bytes × JSONValue)} {key : Bytes} {v w : JSONValue} : Adds v w →
      Adds (.object (before ++ (key, v) :: after)) (.object (before ++ (key, w) :: after))
  | inItem {items : List JSONValue} {i : ℕ} {v w : JSONValue} : items[i]? = some v → Adds v w →
      Adds (.array items) (.array (items.set i w))

theorem lookup_insert {key key' : Bytes} {w : JSONValue} (hkey : key ∉ (before ++ after).map Prod.fst)
    (h : (before ++ after).lookup key' = some w) :
    (before ++ (key, v) :: after).lookup key' = some w := by
  have hne : (key' == key) = false := by
    rw [beq_eq_false_iff_ne]
    rintro rfl
    exact hkey (mem_map_of_mem (mem_of_lookup h))
  rw [lookup_append] at h ⊢
  rwa [lookup_cons, hne]

theorem lookup_replace {key key' : Bytes} {w u : JSONValue} (h : (before ++ (key, v) :: after).lookup key' = some u) :
    (before ++ (key, w) :: after).lookup key' = some u ∨
      u = v ∧ (before ++ (key, w) :: after).lookup key' = some w := by
  rw [lookup_append] at h ⊢
  cases hbefore : before.lookup key' with
  | some x =>
    rw [hbefore] at h
    exact .inl h
  | none =>
    rw [hbefore, lookup_cons] at h
    rw [lookup_cons]
    cases hkey : key' == key with
    | false =>
      rw [hkey] at h
      exact .inl h
    | true =>
      rw [hkey] at h
      exact .inr ⟨(Option.some.inj h).symm, rfl⟩

theorem isSuperset_of_adds {p m m' : JSONValue} (hadds : Adds m m') (h : isSuperset dec p m = .ok ()) :
    isSuperset dec p m' = .ok () := by
  induction hadds generalizing p with
  | key hkey =>
    cases p with
    | object av =>
      obtain ⟨bv, heq, h⟩ := isSuperset_object.mp h
      cases heq
      refine isSuperset_object.mpr ⟨_, rfl, fun f hf => ?_⟩
      obtain ⟨vb, hvb, h⟩ := h f hf
      exact ⟨vb, lookup_insert hkey hvb, h⟩
    | _ => simp at h
  | tail =>
    cases p with
    | array av =>
      obtain ⟨bv, heq, h⟩ := isSuperset_array.mp h
      cases heq
      refine isSuperset_array.mpr ⟨_, rfl, fun i va hva => ?_⟩
      obtain ⟨vb, hvb, h⟩ := h i va hva
      exact ⟨vb, by rw [List.getElem?_append_left (List.getElem?_eq_some_iff.mp hvb).1, hvb], h⟩
    | _ => simp at h
  | inField _ ih =>
    cases p with
    | object av =>
      obtain ⟨bv, heq, h⟩ := isSuperset_object.mp h
      cases heq
      refine isSuperset_object.mpr ⟨_, rfl, fun f hf => ?_⟩
      obtain ⟨vb, hvb, h⟩ := h f hf
      rcases lookup_replace hvb with hvb | ⟨heq, hvb⟩
      · exact ⟨vb, hvb, h⟩
      · exact ⟨_, hvb, ih (heq ▸ h)⟩
    | _ => simp at h
  | @inItem items i v w hv _ ih =>
    cases p with
    | array av =>
      obtain ⟨bv, heq, h⟩ := isSuperset_array.mp h
      cases heq
      refine isSuperset_array.mpr ⟨_, rfl, fun j va hva => ?_⟩
      obtain ⟨vb, hvb, h⟩ := h j va hva
      by_cases hij : i = j
      · subst hij
        rw [hv] at hvb
        cases hvb
        exact ⟨w, by rw [List.getElem?_set_self (List.getElem?_eq_some_iff.mp hv).1], ih h⟩
      · exact ⟨vb, by rw [List.getElem?_set_ne hij, hvb], h⟩
    | _ => simp at h

theorem isSuperset_of_adds_many {p m m' : JSONValue} (hadds : Relation.ReflTransGen Adds m m')
    (h : isSuperset dec p m = .ok ()) : isSuperset dec p m' = .ok () := by
  induction hadds with
  | refl => exact h
  | tail _ hstep ih => exact isSuperset_of_adds hstep ih

end matching

/-! ## Patterns and messages -/

variable {ρ : Type} (host : Host ρ)

theorem isJsonSuperset_eq_ok {a b : Bytes} : MessageFilter.isJsonSuperset host a b = .ok () ↔
    ∃ av bv, host.value a = some av ∧ host.value b = some bv ∧ isSuperset host.newDecFromStr av bv = .ok () := by
  unfold MessageFilter.isJsonSuperset
  cases host.value a with
  | none => simp
  | some av =>
    cases host.value b with
    | none => simp
    | some bv => rcases hm : isSuperset host.newDecFromStr av bv with _ | e | _ <;> simp [hm]

theorem onAuthenticatorAdded_eq_ok {config : Bytes} (h : MessageFilter.onAuthenticatorAdded host config = .ok ()) :
    ∃ v, host.value config = some v ∧ checkForFloats v = false := by
  obtain ⟨_, -, h⟩ := bind_eq_ok.mp h
  obtain ⟨hasFloats, hfloats, h⟩ := bind_eq_ok.mp h
  obtain ⟨v, hv, hfloats⟩ := bind_eq_ok.mp hfloats
  cases hfloats
  refine ⟨v, ?_, by simpa using h⟩
  cases hvalue : host.value config with
  | none =>
    rw [hvalue] at hv
    cases hv
  | some v' =>
    rw [hvalue] at hv
    rw [ok.inj hv]

/-- **Matching is a preorder** on the values without numbers, which every accepted pattern is; a match stays one with
anything added to the message; and what matches a pattern also matches the patterns that match that one. -/
theorem matching_preorder (host : Host ρ) :
    IsPreorder { v : JSONValue // v.KeysDistinct ∧ checkForFloats v = false }
      (fun a b => isSuperset host.newDecFromStr a.1 b.1 = .ok ()) ∧
    (∀ pattern, MessageFilter.onAuthenticatorAdded host pattern = .ok () →
      (∃ v, host.value pattern = some v ∧ checkForFloats v = false) ∧
      ∀ msg msg' m m', host.value msg = some m → host.value msg' = some m' → Relation.ReflTransGen Adds m m' →
        MessageFilter.isJsonSuperset host pattern msg = .ok () →
        MessageFilter.isJsonSuperset host pattern msg' = .ok ()) ∧
    (∀ p q msg, MessageFilter.isJsonSuperset host p q = .ok () → MessageFilter.isJsonSuperset host q msg = .ok () →
      MessageFilter.isJsonSuperset host p msg = .ok ()) := by
  refine ⟨?_, fun pattern h => ⟨onAuthenticatorAdded_eq_ok host h, ?_⟩, ?_⟩
  · exact { refl := fun v => isSuperset_refl v.2.1 v.2.2
            trans := fun _ _ _ => isSuperset_trans }
  · intro msg msg' m m' hm hm' hadds hmatch
    obtain ⟨v, bv, hv, hbv, hmatch⟩ := (isJsonSuperset_eq_ok host).mp hmatch
    cases hm.symm.trans hbv
    exact (isJsonSuperset_eq_ok host).mpr ⟨v, m', hv, hm', isSuperset_of_adds_many hadds hmatch⟩
  · intro p q msg hpq hqm
    obtain ⟨pv, qv, hp, hq, hpq⟩ := (isJsonSuperset_eq_ok host).mp hpq
    obtain ⟨qv', m, hq', hm, hqm⟩ := (isJsonSuperset_eq_ok host).mp hqm
    cases hq.symm.trans hq'
    exact (isJsonSuperset_eq_ok host).mpr ⟨pv, m, hp, hm, isSuperset_trans hpq hqm⟩

end SmartAccount
