/-
  What the garbage collection of circuit deposits does to the store.
-/
import TerpCore.Lib.Machine
import TerpCore.Wasm.Effects

namespace Wasm

open Lib Outcome List FormedOn

variable {ν β : Type} {k : Keeper ν β}

/-! ## The index of a creator -/

theorem FormedOn.exists_creatorIDs {D : Bytes → Prop} {s : Store} (hs : FormedOn D s)
    (hD : ∀ key, D (0x1d :: key)) (creator : AccAddress) :
    ∃ ids : List UInt64, (s.iterator (getCircuitByCreatorIDPrefix creator)).map Prod.fst = ids.map be64 ∧ ids.Nodup ∧
      ∀ id, id ∈ ids ↔ (row s (.creator creator id)).isSome := by
  refine exists_ids (Key.creator creator) (fun _ => rfl) fun key v hget => ?_
  obtain ⟨name, hname, htag, -⟩ := hs.name (hD _) hget
  cases name with
  | creator creator' id =>
    exact ⟨id, (AccAddress.lengthPrefixed_append_inj.mp (List.cons.inj hname).2).2⟩
  | _ => exact absurd htag (by simp [Key.tag])

theorem exists_creatorIDs {s : Store} (hs : Formed s) (creator : AccAddress) :
    ∃ ids : List UInt64, (s.iterator (getCircuitByCreatorIDPrefix creator)).map Prod.fst = ids.map be64 ∧ ids.Nodup ∧
      ∀ id, id ∈ ids ↔ (row s (.creator creator id)).isSome :=
  FormedOn.exists_creatorIDs hs (fun _ => trivial) creator

variable {creator addr : AccAddress} {id now u : UInt64} {key : Key} {s s' : State ν β} {I : State ν β → Prop}
  {c d : Nat} {hits : List (UInt64 × AccAddress)}

theorem row_creator_of_hasCircuitCreatorIndex {s : Store} (h : hasCircuitCreatorIndex s creator = false) (id : UInt64) :
    row s (.creator creator id) = none := by
  cases hrow : row s (.creator creator id) with
  | none => rfl
  | some v =>
    have hmem : (be64 id, v) ∈ s.iterator (getCircuitByCreatorIDPrefix creator) :=
      KVStore.mem_iterator.mpr hrow
    have hnil : s.iterator (getCircuitByCreatorIDPrefix creator) = [] := by
      simpa [hasCircuitCreatorIndex] using h
    simp [hnil] at hmem

theorem hasCircuitCreatorIndex_eq_true {s : Store} (hs : Formed s)
    (h : hasCircuitCreatorIndex s addr = true) : ∃ id, (row s (.creator addr id)).isSome := by
  obtain ⟨ids, hkeys, -, hmem⟩ := exists_creatorIDs hs addr
  cases ids with
  | nil =>
    have hnil : s.iterator (getCircuitByCreatorIDPrefix addr) = [] := by simpa using hkeys
    simp [hasCircuitCreatorIndex, hnil] at h
  | cons id ids => exact ⟨id, (hmem id).mp (by simp)⟩

theorem creatorIDs_map_be64 (max : Nat) : ∀ (ids acc : List UInt64), acc.length ≤ max →
    creatorIDs max acc (ids.map be64) = ((acc ++ ids).take max, decide (max < (acc ++ ids).length))
  | [], acc, h => by
    rw [append_nil, take_of_length_le h, decide_eq_false (Nat.not_lt.mpr h)]
    rfl
  | id :: ids, acc, h => by
    have hlen : (acc ++ [id]).length = acc.length + 1 := by simp
    rw [map_cons, creatorIDs, if_pos (length_be64 id), bigEndianToUint64_be64]
    simp only
    split_ifs with hmax
    · obtain rfl : max = acc.length := by omega
      simp
    · rw [creatorIDs_map_be64 max ids (acc ++ [id]) (by omega), append_assoc]
      rfl

/-! ## Removing the circuits of a creator -/

@[simp] def Key.ofCircuit (id : UInt64) : Key → Prop
  | .pin id' | .creator _ id' | .circuit id' | .circuitBytes id' | .circuitParamRef id' => id' = id
  | _ => False

theorem ofCircuit_of_mem_circuitRows {info : CircuitInfo} (h : key ∈ k.circuitRows id info) : key.ofCircuit id := by
  simp only [Keeper.circuitRows, cons_append, mem_cons, mem_append, mem_map, not_mem_nil, or_false] at h
  rcases h with rfl | ⟨creator, -, rfl⟩ | rfl | rfl | rfl <;> rfl

theorem pruneCircuit_cases (k : Keeper ν β) (creator : AccAddress) (s : State ν β) (id : UInt64) :
    (∃ info, row s.store (.circuit id) = some (.circuitInfo info) ∧
      (k.pruneCircuit creator s id).store = k.deleteCircuitRows s.store id info ∧
      (k.pruneCircuit creator s id).vm =
        k.engine.removeCircuit (k.engine.unpinCircuit s.vm info.circuitHash) info.circuitHash) ∨
    k.pruneCircuit creator s id = { s with store := drop s.store (.creator creator id) } := by
  unfold Keeper.pruneCircuit
  cases h : k.removeCircuit s id with
  | ok s' => exact .inl (removeCircuit_eq_ok h)
  | error | panicked => exact .inr rfl

theorem pruneCircuit_store (k : Keeper ν β) (creator : AccAddress) (s : State ν β) (id : UInt64) :
    ∃ keys : List Key, (k.pruneCircuit creator s id).store = keys.foldl drop s.store ∧
      ∀ key ∈ keys, key.ofCircuit id := by
  rcases pruneCircuit_cases k creator s id with ⟨info, -, hstore, -⟩ | heq
  · exact ⟨k.circuitRows id info, hstore.trans (deleteCircuitRows_eq ..), fun _ =>
      ofCircuit_of_mem_circuitRows⟩
  · exact ⟨[.creator creator id], by rw [heq]; rfl, by simp⟩

theorem row_pruneCircuit (creator : AccAddress) (s : State ν β)
    (h : ¬ key.ofCircuit id) : row (k.pruneCircuit creator s id).store key = row s.store key := by
  obtain ⟨keys, hstore, hkeys⟩ := pruneCircuit_store k creator s id
  rw [hstore, row_foldl_drop, if_neg fun hmem => h (hkeys key hmem)]

theorem row_circuitBytes_pruneCircuit (creator : AccAddress) (s : State ν β) (id : UInt64)
    {id' : UInt64} (h : (row (k.pruneCircuit creator s id).store (.circuit id')).isSome) :
    row (k.pruneCircuit creator s id).store (.circuit id') = row s.store (.circuit id') ∧
      row (k.pruneCircuit creator s id).store (.circuitBytes id') = row s.store (.circuitBytes id') := by
  rcases pruneCircuit_cases k creator s id with ⟨info, -, hstore, -⟩ | heq
  · have hne : id' ≠ id := by
      rintro rfl
      rw [hstore, row_deleteCircuitRows, if_pos (by simp [Keeper.circuitRows])] at h
      cases h
    exact ⟨row_pruneCircuit creator s hne, row_pruneCircuit creator s hne⟩
  · rw [heq]
    exact ⟨row_drop_of_ne (by simp), row_drop_of_ne (by simp)⟩

theorem row_pruneCircuit_or (creator : AccAddress) (s : State ν β) (id : UInt64) (key : Key) :
    row (k.pruneCircuit creator s id).store key = row s.store key ∨
      row (k.pruneCircuit creator s id).store key = none := by
  obtain ⟨keys, hstore, -⟩ := pruneCircuit_store k creator s id
  rw [hstore, row_foldl_drop]
  split_ifs
  · exact .inr rfl
  · exact .inl rfl

theorem row_pruneCircuit_of_circuit {info : CircuitInfo} (hinfo : row s.store (.circuit id) = some (.circuitInfo info))
    (hcreator : k.accAddressFromBech32 info.creator = some creator) (key : Key) :
    row (k.pruneCircuit creator s id).store key =
      if key ∈ [.pin id, .creator creator id, .circuit id, .circuitBytes id, .circuitParamRef id]
      then none else row s.store key := by
  have hstore : (k.pruneCircuit creator s id).store = k.deleteCircuitRows s.store id info := by
    rw [Keeper.pruneCircuit, Keeper.removeCircuit, getCircuitInfo_eq_some.mpr hinfo]
    rfl
  rw [hstore, row_deleteCircuitRows, Keeper.circuitRows, hcreator]
  rfl

theorem pruneCircuit_touches (k : Keeper ν β) (creator : AccAddress) (s : State ν β) (id : UInt64) :
    Touches (Key.ofCircuit id) s.store (k.pruneCircuit creator s id).store := by
  obtain ⟨keys, hstore, hkeys⟩ := pruneCircuit_store k creator s id
  rw [hstore]
  exact .foldl_drop keys .refl hkeys

/-- What the removal of a circuit in the creator's index keeps, the removal of several keeps. -/
theorem foldl_pruneCircuit_rule (hprune : ∀ s id, (row s.store (.creator creator id)).isSome → I s →
      I (k.pruneCircuit creator s id)) :
    ∀ (ids : List UInt64) (s : State ν β), ids.Nodup → (∀ id ∈ ids, (row s.store (.creator creator id)).isSome) → I s →
      I (ids.foldl (k.pruneCircuit creator) s)
  | [], _, _, _, h => h
  | id :: ids, s, hnodup, hids, h => by
    obtain ⟨hid, hnodup⟩ := nodup_cons.mp hnodup
    refine foldl_pruneCircuit_rule hprune ids _ hnodup ?_ (hprune s id (hids id (by simp)) h)
    intro id' hmem
    have hne : id' ≠ id := fun heq => hid (heq ▸ hmem)
    rw [row_pruneCircuit creator s (by simpa using hne)]
    exact hids id' (by simp [hmem])

theorem row_foldl_pruneCircuit : ∀ (ids : List UInt64) (s : State ν β), (∀ id ∈ ids, ¬ key.ofCircuit id) →
    row (ids.foldl (k.pruneCircuit creator) s).store key = row s.store key
  | [], _, _ => rfl
  | id :: ids, s, h => by
    rw [foldl_cons, row_foldl_pruneCircuit ids _ fun id' hmem => h id' (by simp [hmem]),
      row_pruneCircuit creator s (h id (by simp))]

theorem foldl_pruneCircuit_formed : ∀ (ids : List UInt64) (s : State ν β),
    Formed s.store → Formed (ids.foldl (k.pruneCircuit creator) s).store
  | [], _, h => h
  | id :: ids, s, h =>
    foldl_pruneCircuit_formed ids _ ((pruneCircuit_touches k creator s id).formedOn h)

theorem isSome_of_foldl_pruneCircuit : ∀ (ids : List UInt64)
    (s : State ν β), (row (ids.foldl (k.pruneCircuit creator) s).store key).isSome →
    (row s.store key).isSome
  | [], _, h => h
  | id :: ids, s, h => by
    have hnext := isSome_of_foldl_pruneCircuit ids _ h
    rcases row_pruneCircuit_or creator s id key with heq | heq
    · rwa [heq] at hnext
    · simp [heq] at hnext

/-! ## Sweeps -/

section

variable (hs : Formed s.store)

include hs

theorem pruneCreatorCircuits_eq (creator : AccAddress) (max : Nat) : ∃ (ids : List UInt64) (more : Bool), ids.Nodup ∧
      (∀ id ∈ ids, (row s.store (.creator creator id)).isSome) ∧ ids.length ≤ max ∧
      (ids.length = max ∨ more = false ∧ ∀ id, (row s.store (.creator creator id)).isSome → id ∈ ids) ∧
      k.pruneCreatorCircuits s creator max = (ids.foldl (k.pruneCircuit creator) s, ids.length,
        more || hasCircuitCreatorIndex (ids.foldl (k.pruneCircuit creator) s).store creator) := by
  unfold Keeper.pruneCreatorCircuits
  split_ifs with hmax
  · exact ⟨[], false, nodup_nil, by simp, by simp, Or.inl hmax.symm, rfl⟩
  · obtain ⟨ids, hkeys, hnodup, hmem⟩ := exists_creatorIDs hs creator
    refine ⟨ids.take max, decide (max < ids.length), hnodup.sublist (take_sublist max ids),
      fun id hid => (hmem id).mp (mem_of_mem_take hid), length_take_le max ids, ?_, ?_⟩
    · rcases Nat.lt_or_ge max ids.length with hlt | hle
      · exact Or.inl (length_take_of_le (Nat.le_of_lt hlt))
      · refine .inr ⟨decide_eq_false (Nat.not_lt.mpr hle), fun id hid => ?_⟩
        rw [take_of_length_le hle]
        exact (hmem id).mpr hid
    · rw [hkeys, creatorIDs_map_be64 max ids [] (Nat.zero_le max)]
      rfl

/-- A sweep removes some circuits of the index, and leaves a marker or an empty index.  A marker says that
the budget is used up, or that an entry was worked off and is still there. -/
theorem pruneAndMark_eq (addr : AccAddress) (max : Nat) :
    ∃ ids : List UInt64, ids.Nodup ∧ (∀ id ∈ ids, (row s.store (.creator addr id)).isSome) ∧
      ids.length ≤ max ∧ (k.pruneAndMark s addr max).2 = ids.length ∧
      let t := ids.foldl (k.pruneCircuit addr) s
      (ids.length = max ∨ ∃ id ∈ ids, (row t.store (.creator addr id)).isSome) ∧
          (k.pruneAndMark s addr max).1 = { t with store := put t.store (.gc addr) (.raw [1]) } ∨
        (∀ id, row t.store (.creator addr id) = none) ∧
          (k.pruneAndMark s addr max).1 = { t with store := drop t.store (.gc addr) } := by
  obtain ⟨ids, more, hnodup, hids, hmax, hfull, heq⟩ := pruneCreatorCircuits_eq (k := k) hs addr max
  refine ⟨ids, hnodup, hids, hmax, ?_⟩
  simp only [Keeper.pruneAndMark, heq, true_and]
  cases hmore : more || hasCircuitCreatorIndex (ids.foldl (k.pruneCircuit addr) s).store addr with
  | true =>
    refine .inl ⟨?_, rfl⟩
    rcases hfull with hfull | ⟨hfalse, hall⟩
    · exact .inl hfull
    · rw [hfalse] at hmore
      obtain ⟨id, hid⟩ := hasCircuitCreatorIndex_eq_true (foldl_pruneCircuit_formed ids s hs) hmore
      exact .inr ⟨id, hall id (isSome_of_foldl_pruneCircuit ids s hid), hid⟩
  | false =>
    exact .inr ⟨row_creator_of_hasCircuitCreatorIndex (Bool.or_eq_false_iff.mp hmore).2, rfl⟩

/-- What removals keep and the two ends turn into `J`. -/
theorem pruneAndMark_ends {J : State ν β → Prop}
    (hprune : ∀ s id, (row s.store (.creator addr id)).isSome → I s → I (k.pruneCircuit addr s id))
    (hmark : ∀ s, I s → J { s with store := put s.store (.gc addr) (.raw [1]) })
    (hdone : ∀ s, (∀ id, row s.store (.creator addr id) = none) → I s →
      J { s with store := drop s.store (.gc addr) }) (max : Nat) (h : I s) : J (k.pruneAndMark s addr max).1 := by
  obtain ⟨ids, hnodup, hids, -, -, ⟨-, hmarked⟩ | ⟨hnone, hunmarked⟩⟩ := pruneAndMark_eq hs addr max
  · rw [hmarked]
    exact hmark _ (foldl_pruneCircuit_rule hprune ids s hnodup hids h)
  · rw [hunmarked]
    exact hdone _ hnone (foldl_pruneCircuit_rule hprune ids s hnodup hids h)

/-- What removals and the two ends keep, a sweep keeps. -/
theorem pruneAndMark_rule
    (hprune : ∀ s id, (row s.store (.creator addr id)).isSome → I s → I (k.pruneCircuit addr s id))
    (hmark : ∀ s, I s → I { s with store := put s.store (.gc addr) (.raw [1]) })
    (hdone : ∀ s, (∀ id, row s.store (.creator addr id) = none) → I s →
      I { s with store := drop s.store (.gc addr) }) (max : Nat) (h : I s) : I (k.pruneAndMark s addr max).1 :=
  pruneAndMark_ends hs hprune hmark hdone max h

theorem pruneAndMark_formed (addr : AccAddress) (max : Nat) : Formed (k.pruneAndMark s addr max).1.store := by
  refine pruneAndMark_rule (I := fun s => Formed s.store) hs (fun s id _ h => ?_) (fun s h => ?_)
    (fun s _ h => ?_) max hs
  · exact (pruneCircuit_touches k addr s id).formedOn h
  · exact FormedOn.put h trivial
  · exact FormedOn.drop h _

theorem row_pruneAndMark (hkey : ∀ id, ¬ key.ofCircuit id) (hgc : Key.gc addr ≠ key) (max : Nat) :
    row (k.pruneAndMark s addr max).1.store key = row s.store key := by
  refine pruneAndMark_rule (I := fun t => row t.store key = row s.store key) hs (fun t id _ h => ?_)
    (fun t h => ?_) (fun t _ h => ?_) max rfl
  · exact (row_pruneCircuit addr t (hkey id)).trans h
  · exact (row_put_of_ne hgc).trans h
  · exact (row_drop_of_ne hgc).trans h

theorem pruneAndMark_count (addr : AccAddress) (max : Nat) :
    ∃ ids : List UInt64, ids.length = (k.pruneAndMark s addr max).2 ∧ ids.length ≤ max ∧ ∀ id, id ∉ ids →
        row (k.pruneAndMark s addr max).1.store (.circuit id) = row s.store (.circuit id) := by
  obtain ⟨ids, -, -, hmax, hn, hends⟩ := pruneAndMark_eq hs addr max
  refine ⟨ids, hn.symm, hmax, fun id hid => ?_⟩
  have hkeep : row (ids.foldl (k.pruneCircuit addr) s).store (.circuit id) = row s.store (.circuit id) := by
    refine row_foldl_pruneCircuit ids s ?_
    rintro id' hmem rfl
    exact hid hmem
  rcases hends with ⟨-, hends⟩ | ⟨-, hends⟩
  · rw [hends, ← hkeep]
    exact row_put_of_ne (by simp)
  · rw [hends, ← hkeep]
    exact row_drop_of_ne (by simp)

end

/-! ## The collection -/

theorem isDue_eq_true {s : Store} (h : isDue s now u addr = true) :
    circuitDepositPaidUntil s addr = some u ∧ ¬ now.toInt64 < u.toInt64 := by
  unfold isDue at h
  cases hpaid : circuitDepositPaidUntil s addr with
  | none => simp [hpaid] at h
  | some cur =>
    simp only [hpaid, Bool.and_eq_true, decide_eq_true_eq, Bool.not_eq_true', decide_eq_false_iff_not] at h
    exact ⟨by rw [h.1], h.1 ▸ h.2⟩

/-- The state without the row and the expiry entry of a deposit. -/
def State.lapse (s : State ν β) (paidUntil : UInt64) (addr : AccAddress) : State ν β :=
  { s with store := drop (drop s.store (.depositee addr)) (.expiry paidUntil addr) }

theorem lapse_formed (hs : Formed s.store) (u : UInt64) (addr : AccAddress) : Formed (s.lapse u addr).store :=
  FormedOn.drop (FormedOn.drop hs _) _

theorem row_lapse (s : State ν β) (u : UInt64) (addr : AccAddress) (key : Key) :
    row (s.lapse u addr).store key =
      if key = .depositee addr ∨ key = .expiry u addr then none else row s.store key := by
  simp only [State.lapse, row_drop, eq_comm]
  split_ifs <;> simp_all

theorem row_lapse_depositee (s : State ν β) (u : UInt64) (addr addr' : AccAddress) :
    row (s.lapse u addr).store (.depositee addr') =
      if addr' = addr then none else row s.store (.depositee addr') := by
  simp [row_lapse]

theorem row_lapse_expiry (s : State ν β) (u u' : UInt64) (addr addr' : AccAddress) :
    row (s.lapse u addr).store (.expiry u' addr') =
      if u' = u ∧ addr' = addr then none else row s.store (.expiry u' addr') := by
  simp [row_lapse]

/-- The circuit upload rules in force say `b` about `addr`. -/
def Keeper.Ruled (k : Keeper ν β) (s : Store) (addr : AccAddress) (b : Bool) : Prop :=
  ∃ p, row s .params = some (.params p) ∧
    p.circuitUploadAccessConfig.allowed (k.bech32 addr) = some b

section

variable (hbudget : ¬ (d = 0 ∨ c = 0))

include hbudget

theorem prunePending_cons {addrs : List AccAddress} : k.prunePending c d s (addr :: addrs) =
      k.prunePending (c - (k.pruneAndMark s addr c).2) (d - 1) (k.pruneAndMark s addr c).1 addrs := by
  rw [Keeper.prunePending, if_neg hbudget]

theorem pruneExpired_stale (hdue : ¬ isDue s.store now u addr = true) : k.pruneExpired now c d s ((u, addr) :: hits) =
      k.pruneExpired now c d { s with store := drop s.store (.expiry u addr) } hits := by
  rw [Keeper.pruneExpired, if_neg hbudget, if_neg hdue, deleteCircuitDepositExpiry_eq]

theorem pruneExpired_due (hdue : isDue s.store now u addr = true)
    (h : k.pruneExpired now c d s ((u, addr) :: hits) = .ok s') :
    k.Ruled s.store addr true ∧ k.pruneExpired now c (d - 1)
        { s.lapse u addr with store := drop (s.lapse u addr).store (.gc addr) } hits = .ok s' ∨
      k.Ruled s.store addr false ∧ k.pruneExpired now (c - (k.pruneAndMark (s.lapse u addr) addr c).2) (d - 1)
          (k.pruneAndMark (s.lapse u addr) addr c).1 hits = .ok s' := by
  rw [Keeper.pruneExpired, if_neg hbudget, if_pos hdue] at h
  obtain ⟨p, hp, h⟩ := bind_eq_ok.mp h
  obtain ⟨allowed, hallowed, h⟩ := bind_eq_ok.mp h
  have hparams : row s.store .params = some (.params p) := by
    have hrow := getParams_eq_ok.mp hp
    rwa [deleteCircuitDepositExpiry_eq, removeCircuitDepositee_eq, row_drop_of_ne (by simp),
      row_drop_of_ne (by simp)] at hrow
  have hruled : k.Ruled s.store addr allowed := ⟨p, hparams, ofOption_eq_ok.mp hallowed⟩
  cases allowed with
  | true => exact .inl ⟨hruled, h⟩
  | false => exact .inr ⟨hruled, h⟩

theorem pruneExpired_sweep (hdue : isDue s.store now u addr = true) (hruled : k.Ruled s.store addr false) :
    k.pruneExpired now c d s ((u, addr) :: hits) =
      k.pruneExpired now (c - (k.pruneAndMark (s.lapse u addr) addr c).2) (d - 1)
        (k.pruneAndMark (s.lapse u addr) addr c).1 hits := by
  obtain ⟨p, hp, hallowed⟩ := hruled
  have hparams : getParams (deleteCircuitDepositExpiry (removeCircuitDepositee s.store addr) u addr) = .ok p := by
    rw [getParams_eq_ok, deleteCircuitDepositExpiry_eq, removeCircuitDepositee_eq, row_drop_of_ne (by simp),
      row_drop_of_ne (by simp), hp]
  rw [Keeper.pruneExpired, if_neg hbudget, if_pos hdue]
  simp only [hparams, hallowed, ok_bind]
  rfl

end

section rules

variable {I : State ν β → Prop}

theorem prunePending_rule {A : AccAddress → Prop}
    (hsweep : ∀ s addr max, A addr → I s → I (k.pruneAndMark s addr max).1) :
    ∀ (addrs : List AccAddress) (c d : Nat) (s : State ν β), (∀ addr ∈ addrs, A addr) → I s →
      I (k.prunePending c d s addrs).1
  | [], _, _, _, _, h => h
  | addr :: addrs, c, d, s, hA, h => by
    by_cases hbudget : d = 0 ∨ c = 0
    · rw [Keeper.prunePending, if_pos hbudget]
      exact h
    · rw [prunePending_cons hbudget]
      exact prunePending_rule hsweep addrs _ _ _ (fun a ha => hA a (by simp [ha]))
        (hsweep s addr c (hA addr (by simp)) h)

variable {H : UInt64 × AccAddress → Prop} {blockTime : Int64} {s s' : State ν β}

/-- What the second loop does with a deposit that is due keeps `I`. -/
structure KeepsDue (k : Keeper ν β) (now : UInt64) (I : State ν β → Prop) : Prop where
  spare : ∀ s u addr, isDue s.store now u addr = true → k.Ruled s.store addr true → I s →
    I { s.lapse u addr with store := drop (s.lapse u addr).store (.gc addr) }
  sweep : ∀ s u addr max, isDue s.store now u addr = true → k.Ruled s.store addr false → I s →
    I (k.pruneAndMark (s.lapse u addr) addr max).1

/-- What the three ends of an iteration keep, the second loop keeps. -/
theorem pruneExpired_rule {now : UInt64} (hstale : ∀ s u addr, H (u, addr) → ¬ isDue s.store now u addr = true → I s →
      I { s with store := drop s.store (.expiry u addr) }) (hkeeps : KeepsDue k now I) :
    ∀ (hits : List (UInt64 × AccAddress)) (c d : Nat) (s s' : State ν β), (∀ hit ∈ hits, H hit) →
      k.pruneExpired now c d s hits = .ok s' → I s → I s'
  | [], _, _, _, _, _, heq, h => ok.inj heq ▸ h
  | (u, addr) :: hits, c, d, s, s', hhits, heq, h => by
    rw [forall_mem_cons] at hhits
    have ih := fun c d s s' => pruneExpired_rule hstale hkeeps hits c d s s' hhits.2
    by_cases hbudget : d = 0 ∨ c = 0
    · rw [Keeper.pruneExpired, if_pos hbudget] at heq
      exact ok.inj heq ▸ h
    · by_cases hdue : isDue s.store now u addr = true
      · rcases pruneExpired_due hbudget hdue heq with ⟨hruled, heq⟩ | ⟨hruled, heq⟩
        · exact ih _ _ _ _ heq (hkeeps.spare s u addr hdue hruled h)
        · exact ih _ _ _ _ heq (hkeeps.sweep s u addr c hdue hruled h)
      · rw [pruneExpired_stale hbudget hdue] at heq
        exact ih _ _ _ _ heq (hstale s u addr hhits.1 hdue h)

/-- What sweeps and the other ends of an iteration keep, the collection keeps.  `H` is what the expiry entries
that are worked off have in common. -/
theorem prune_hits_rule (hpending : ∀ t addr max, addr ∈ pendingGC s.store → I t → I (k.pruneAndMark t addr max).1)
    (hhits : ∀ t, I t → ∀ hit ∈ expiredHits t.store (nowUnix blockTime), H hit)
    (hstale : ∀ s u addr, H (u, addr) → ¬ isDue s.store (nowUnix blockTime) u addr = true → I s →
      I { s with store := drop s.store (.expiry u addr) }) (hkeeps : KeepsDue k (nowUnix blockTime) I)
    (heq : k.pruneExpiredCircuitDeposits s blockTime = .ok s') (h : I s) : I s' := by
  have hfirst := prunePending_rule hpending (pendingGC s.store) maxCircuitDepositGCCircuits
    maxCircuitDepositGCDepositees s (fun _ ha => ha) h
  unfold Keeper.pruneExpiredCircuitDeposits at heq
  cases hres : k.prunePending maxCircuitDepositGCCircuits maxCircuitDepositGCDepositees s
      (pendingGC s.store) with
  | mk t left =>
    rw [hres] at hfirst
    cases left with
    | none =>
      simp only [hres] at heq
      exact ok.inj heq ▸ hfirst
    | some left =>
      simp only [hres] at heq
      exact pruneExpired_rule hstale hkeeps _ _ _ _ _
        (fun hit hhit => hhits t hfirst hit (mem_of_mem_take hhit)) heq hfirst

theorem prune_rule (hpending : ∀ t addr max, addr ∈ pendingGC s.store → I t → I (k.pruneAndMark t addr max).1)
    (hstale : ∀ s u addr, I s → I { s with store := drop s.store (.expiry u addr) })
    (hkeeps : KeepsDue k (nowUnix blockTime) I) (heq : k.pruneExpiredCircuitDeposits s blockTime = .ok s')
    (h : I s) : I s' :=
  prune_hits_rule hpending (fun _ _ _ _ => trivial) (fun s u addr _ _ => hstale s u addr) hkeeps heq h

def Key.ofDeposit : Key → Prop
  | .depositee _ | .expiry _ _ | .gc _ => True
  | _ => False

/-- What removals of circuits, drops of deposit rows and new markers keep, the collection keeps. -/
theorem prune_steps_rule (hs : Formed s.store) (hcircuit : ∀ t addr id, I t → I (k.pruneCircuit addr t id))
    (hdrop : ∀ t key, key.ofDeposit → I t → I { t with store := drop t.store key })
    (hmark : ∀ t addr, I t → I { t with store := put t.store (.gc addr) (.raw [1]) })
    (heq : k.pruneExpiredCircuitDeposits s blockTime = .ok s') (h : I s) : I s' := by
  -- a sweep reads the ids of an index, so that `Formed` has to go along
  let J : State ν β → Prop := fun t => Formed t.store ∧ I t
  have hdropJ : ∀ t key, key.ofDeposit → J t → J { t with store := drop t.store key } :=
    fun t key hkey ht => ⟨FormedOn.drop ht.1 key, hdrop t key hkey ht.2⟩
  have hsweep : ∀ t addr max, J t → J (k.pruneAndMark t addr max).1 := by
    intro t addr max ht
    refine pruneAndMark_rule ht.1 ?_ ?_ (fun t _ => hdropJ t _ trivial) max ht
    · exact fun t id _ ht => ⟨(pruneCircuit_touches k addr t id).formedOn ht.1, hcircuit t addr id ht.2⟩
    · exact fun t ht => ⟨FormedOn.put ht.1 trivial, hmark t addr ht.2⟩
  exact (prune_rule (fun t addr max _ => hsweep t addr max) (fun t u addr => hdropJ t _ trivial)
    ⟨fun t u addr _ _ ht =>
      hdropJ _ (.gc addr) trivial (hdropJ _ (.expiry u addr) trivial (hdropJ _ (.depositee addr) trivial ht)),
    fun t u addr max _ _ ht =>
      hsweep _ addr max (hdropJ _ (.expiry u addr) trivial (hdropJ _ (.depositee addr) trivial ht))⟩
    heq ⟨hs, h⟩).2

end rules

/-! ## The work lists -/

theorem pendingGC_keys {s : Store} (hs : Formed s) :
    (s.iterator circuitDepositGCPrefix).map Prod.fst = (pendingGC s).map AccAddress.lengthPrefixed ∧
      (pendingGC s).Nodup ∧ ∀ addr, addr ∈ pendingGC s ↔ (row s (.gc addr)).isSome := by
  have hnamed : ∀ key v, s.get (circuitDepositGCPrefix ++ key) = some v →
      ∃ addr : AccAddress, key = addr.lengthPrefixed := by
    intro key v hget
    obtain ⟨name, hname, htag, -⟩ := hs.name trivial hget
    cases name with
    | gc addr => exact ⟨addr, (List.cons.inj hname).2⟩
    | _ => exact absurd htag (by simp [Key.tag])
  have hinj : Function.Injective AccAddress.lengthPrefixed := fun a b heq =>
    (AccAddress.lengthPrefixed_append_inj.mp (congrArg (· ++ []) heq)).1
  obtain ⟨addrs, hkeys, hnodup, hmem⟩ := exists_names Key.gc hinj (fun _ => rfl) hnamed
  have hlist : pendingGC s = addrs := by
    calc pendingGC s = ((s.iterator circuitDepositGCPrefix).map Prod.fst).filterMap
          parseCircuitDepositGCKey := by rw [filterMap_map]; rfl
      _ = addrs := by simp [hkeys, Function.comp_def, parseCircuitDepositGCKey]
  rw [hlist]
  exact ⟨hkeys, hnodup, hmem⟩

theorem pendingGC_spec {s : Store} (hs : Formed s) :
    (pendingGC s).Nodup ∧ ∀ addr, addr ∈ pendingGC s ↔ (row s (.gc addr)).isSome :=
  (pendingGC_keys hs).2

theorem row_gc_of_mem_pendingGC {s : Store} (hs : Formed s) (h : addr ∈ pendingGC s) : (row s (.gc addr)).isSome :=
  ((pendingGC_spec hs).2 addr).mp h

theorem getCircuitDepositExpiryKey_injective :
    Function.Injective fun hit : UInt64 × AccAddress => getCircuitDepositExpiryKey hit.1 hit.2 := by
  intro hit hit' heq
  have hparse := congrArg parseCircuitDepositExpiryKey heq
  simpa using hparse

theorem toNat_nowUnix_lt (blockTime : Int64) : (nowUnix blockTime).toNat < 2 ^ 63 := by
  unfold nowUnix
  split_ifs with hneg
  · decide
  · exact toNat_toUInt64_lt hneg

theorem FormedOn.exists_expiry {D : Bytes → Prop} {s : Store} (hs : FormedOn D s) (hD : ∀ key, D (0x1b :: key))
    {key : Bytes} {v : Value} (hget : s.get (circuitDepositExpiryPrefix ++ key) = some v) :
    ∃ hit : UInt64 × AccAddress, key = getCircuitDepositExpiryKey hit.1 hit.2 := by
  obtain ⟨name, hname, htag, -⟩ := hs.name (hD _) hget
  cases name with
  | expiry u addr => exact ⟨(u, addr), (List.cons.inj hname).2⟩
  | _ => exact absurd htag (by simp [Key.tag])

theorem expiryKey_lt {now : UInt64} (hnow : now.toNat < 2 ^ 64 - 1) (u : UInt64) (addr : AccAddress) :
    Bytes.lt (getCircuitDepositExpiryKey u addr) (be64 (now + 1)) = decide (u ≤ now) := by
  have hsucc : (now + 1).toNat = now.toNat + 1 := toNat_add_one (by omega)
  rw [getCircuitDepositExpiryKey, be64_append_lt, decide_eq_decide, UInt64.lt_iff_toNat_lt, hsucc, Nat.lt_succ_iff,
    UInt64.le_iff_toNat_le]

theorem expiredHits_upTo {s : Store} (hs : Formed s) {now : UInt64} (hnow : now.toNat < 2 ^ 64 - 1) :
    (expiredHits s now).Nodup ∧
      ∀ u addr, (u, addr) ∈ expiredHits s now ↔ (row s (.expiry u addr)).isSome ∧ u ≤ now := by
  obtain ⟨hits, hkeys, hnodup, hmem⟩ := exists_names (fun hit : UInt64 × AccAddress => Key.expiry hit.1 hit.2)
    getCircuitDepositExpiryKey_injective (fun _ => rfl) fun _ _ =>
      exists_expiry hs fun _ => trivial
  have hlist : expiredHits s now = hits.filter fun hit => decide (hit.1 ≤ now) := by
    calc expiredHits s now
        = (((s.iterator circuitDepositExpiryPrefix).map Prod.fst).filter
            (Bytes.lt · (be64 (now + 1)))).filterMap parseCircuitDepositExpiryKey := by
          rw [filter_map, filterMap_map]
          rfl
      _ = _ := by
          rw [hkeys, filter_map]
          simp [Function.comp_def, expiryKey_lt hnow]
  rw [hlist]
  refine ⟨hnodup.filter _, fun u addr => ?_⟩
  rw [mem_filter, hmem, decide_eq_true_eq]

theorem expiredHits_spec {s : Store} (hs : Formed s) (blockTime : Int64) :
    (expiredHits s (nowUnix blockTime)).Nodup ∧ ∀ u addr, (u, addr) ∈ expiredHits s (nowUnix blockTime) ↔
      (row s (.expiry u addr)).isSome ∧ u.toNat ≤ (nowUnix blockTime).toNat :=
  expiredHits_upTo hs (by have := toNat_nowUnix_lt blockTime; omega)

/-! ## What is left -/

/-- No row of a deposit comes back while the loops run, so a marked address has none when its turn comes. -/
theorem prune_unpaid_rule {I : State ν β → Prop} {blockTime : Int64} (hformed : ∀ t, I t → Formed t.store)
    (hunpaid : ∀ addr, (row s.store (.gc addr)).isSome → row s.store (.depositee addr) = none)
    (hpending : ∀ t addr max, addr ∈ pendingGC s.store → row t.store (.depositee addr) = none → I t →
      I (k.pruneAndMark t addr max).1)
    (hstale : ∀ s u addr, I s → I { s with store := drop s.store (.expiry u addr) })
    (hkeeps : KeepsDue k (nowUnix blockTime) I) (heq : k.pruneExpiredCircuitDeposits s blockTime = .ok s')
    (h : I s) : I s' := by
  refine (prune_rule (I := fun t => I t ∧ ∀ addr, row s.store (.depositee addr) = none →
    row t.store (.depositee addr) = none) ?_ ?_ ⟨?_, ?_⟩ heq ⟨h, fun _ => id⟩).1
  · rintro t addr max hmem ⟨ht, hnone⟩
    have hrow := hnone addr (hunpaid addr (row_gc_of_mem_pendingGC (hformed s h) hmem))
    refine ⟨hpending t addr max hmem hrow ht, fun addr' hrow' => ?_⟩
    rw [row_pruneAndMark (hformed t ht) (by simp) (by simp)]
    exact hnone addr' hrow'
  · rintro t u addr ⟨ht, hnone⟩
    exact ⟨hstale t u addr ht, fun addr' hrow => (row_drop_of_ne (by simp)).trans (hnone addr' hrow)⟩
  · rintro t u addr hdue hruled ⟨ht, hnone⟩
    refine ⟨hkeeps.spare t u addr hdue hruled ht, fun addr' hrow => ?_⟩
    rw [row_drop_of_ne (by simp), row_lapse_depositee, hnone addr' hrow, ite_self]
  · rintro t u addr max hdue hruled ⟨ht, hnone⟩
    refine ⟨hkeeps.sweep t u addr max hdue hruled ht, fun addr' hrow => ?_⟩
    rw [row_pruneAndMark (lapse_formed (hformed t ht) u addr) (by simp) (by simp), row_lapse_depositee,
      hnone addr' hrow, ite_self]

theorem row_prune_or {blockTime : Int64} (hs : Formed s.store) (hkey : ∀ addr, Key.gc addr ≠ key)
    (heq : k.pruneExpiredCircuitDeposits s blockTime = .ok s') :
    row s'.store key = row s.store key ∨ row s'.store key = none := by
  refine prune_steps_rule (I := fun t => row t.store key = row s.store key ∨ row t.store key = none)
    hs ?_ ?_ ?_ heq (.inl rfl)
  · intro t addr id h
    rcases row_pruneCircuit_or addr t id key with heq | heq
    · rw [heq]
      exact h
    · exact .inr heq
  · intro t key' _ h
    rw [row_drop]
    split_ifs
    · exact .inr rfl
    · exact h
  · intro t addr h
    rw [row_put_of_ne (hkey addr)]
    exact h

theorem row_circuitBytes_prune {blockTime : Int64} (hs : Formed s.store) (id : UInt64)
    (heq : k.pruneExpiredCircuitDeposits s blockTime = .ok s') (h : (row s'.store (.circuit id)).isSome) :
    row s'.store (.circuit id) = row s.store (.circuit id) ∧
      row s'.store (.circuitBytes id) = row s.store (.circuitBytes id) := by
  refine prune_steps_rule (I := fun t => (row t.store (.circuit id)).isSome →
    row t.store (.circuit id) = row s.store (.circuit id) ∧
      row t.store (.circuitBytes id) = row s.store (.circuitBytes id)) hs ?_ ?_ ?_ heq
    (fun _ => ⟨rfl, rfl⟩) h
  · intro t addr id' ht hsome
    obtain ⟨hcircuit, hbytes⟩ := row_circuitBytes_pruneCircuit addr t id' hsome
    rw [hcircuit, hbytes]
    exact ht (hcircuit ▸ hsome)
  · intro t key hkey ht
    rwa [row_drop_of_ne (by rintro rfl; exact hkey), row_drop_of_ne (by rintro rfl; exact hkey)]
  · intro t addr ht
    rwa [row_put_of_ne (by simp), row_put_of_ne (by simp)]

/-! ## The budget -/

section budget

theorem prunePending_count : ∀ (addrs : List AccAddress) (c d : Nat) (s : State ν β),
    Formed s.store → ∃ ids : List UInt64, ids.length + ((k.prunePending c d s addrs).2.elim 0 Prod.fst) ≤ c ∧
      Formed (k.prunePending c d s addrs).1.store ∧ ∀ id, id ∉ ids →
        row (k.prunePending c d s addrs).1.store (.circuit id) = row s.store (.circuit id)
  | [], c, _, _, hs => ⟨[], by simp [Keeper.prunePending], hs, fun _ _ => rfl⟩
  | addr :: addrs, c, d, s, hs => by
    by_cases hbudget : d = 0 ∨ c = 0
    · rw [Keeper.prunePending, if_pos hbudget]
      exact ⟨[], by simp, hs, fun _ _ => rfl⟩
    · rw [prunePending_cons hbudget]
      obtain ⟨ids, hn, hc, hids⟩ := pruneAndMark_count (k := k) hs addr c
      obtain ⟨ids', hc', hformed, hids'⟩ := prunePending_count addrs
        (c - (k.pruneAndMark s addr c).2) (d - 1) _ (pruneAndMark_formed hs addr c)
      refine ⟨ids ++ ids', ?_, hformed, fun id hid => ?_⟩
      · rw [length_append]
        omega
      · rw [mem_append, not_or] at hid
        exact (hids' id hid.2).trans (hids id hid.1)

theorem pruneExpired_count {now : UInt64} : ∀ (hits : List (UInt64 × AccAddress)) (c d : Nat)
    (s s' : State ν β), Formed s.store → k.pruneExpired now c d s hits = .ok s' →
    ∃ ids : List UInt64, ids.length ≤ c ∧ ∀ id, id ∉ ids → row s'.store (.circuit id) = row s.store (.circuit id)
  | [], _, _, _, _, _, heq => ⟨[], by simp, fun _ _ => by rw [← ok.inj heq]⟩
  | (u, addr) :: hits, c, d, s, s', hs, heq => by
    have hlapse := lapse_formed hs u addr
    have hkeep : ∀ id, row (s.lapse u addr).store (.circuit id) = row s.store (.circuit id) := by simp [row_lapse]
    by_cases hbudget : d = 0 ∨ c = 0
    · rw [Keeper.pruneExpired, if_pos hbudget] at heq
      exact ⟨[], by simp, fun _ _ => by rw [← ok.inj heq]⟩
    · by_cases hdue : isDue s.store now u addr = true
      · rcases pruneExpired_due hbudget hdue heq with ⟨-, heq⟩ | ⟨-, heq⟩
        · have hdrop : Formed (drop (s.lapse u addr).store (.gc addr)) := FormedOn.drop hlapse _
          obtain ⟨ids, hc, hids⟩ := pruneExpired_count hits c (d - 1) _ s' hdrop heq
          exact ⟨ids, hc, fun id hid =>
            ((hids id hid).trans (row_drop_of_ne (by simp))).trans (hkeep id)⟩
        · obtain ⟨ids, hn, hc, hids⟩ := pruneAndMark_count (k := k) hlapse addr c
          obtain ⟨ids', hc', hids'⟩ := pruneExpired_count hits _ (d - 1) _ s' (pruneAndMark_formed hlapse addr c) heq
          refine ⟨ids ++ ids', ?_, fun id hid => ?_⟩
          · rw [length_append]
            omega
          · rw [mem_append, not_or] at hid
            exact ((hids' id hid.2).trans (hids id hid.1)).trans (hkeep id)
      · rw [pruneExpired_stale hbudget hdue] at heq
        have hdrop : Formed (drop s.store (.expiry u addr)) := FormedOn.drop hs _
        obtain ⟨ids, hc, hids⟩ := pruneExpired_count hits c d _ s' hdrop heq
        exact ⟨ids, hc, fun id hid => (hids id hid).trans (row_drop_of_ne (by simp))⟩

theorem prune_count {blockTime : Int64} {s s' : State ν β} (hs : Formed s.store)
    (heq : k.pruneExpiredCircuitDeposits s blockTime = .ok s') :
    ∃ ids : List UInt64, ids.length ≤ maxCircuitDepositGCCircuits ∧ ∀ id, id ∉ ids →
      row s'.store (.circuit id) = row s.store (.circuit id) := by
  obtain ⟨ids, hc, hformed, hids⟩ := prunePending_count (pendingGC s.store)
    maxCircuitDepositGCCircuits maxCircuitDepositGCDepositees s hs
  unfold Keeper.pruneExpiredCircuitDeposits at heq
  cases hres : k.prunePending maxCircuitDepositGCCircuits maxCircuitDepositGCDepositees s
      (pendingGC s.store) with
  | mk t left =>
    rw [hres] at hc hformed hids
    cases left with
    | none =>
      simp only [hres] at heq
      cases heq
      exact ⟨ids, hc, hids⟩
    | some left =>
      simp only [hres] at heq
      obtain ⟨ids', hc', hids'⟩ := pruneExpired_count _ _ _ _ _ hformed heq
      refine ⟨ids ++ ids', ?_, fun id hid => ?_⟩
      · rw [length_append]
        simp only [Option.elim] at hc
        omega
      · rw [mem_append, not_or] at hid
        exact (hids' id hid.2).trans (hids id hid.1)

end budget

end Wasm
