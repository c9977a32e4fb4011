/-
  The work of a collection at the end of a block.

  The loops of the collection are written once more, with a count of the calls of `Next` on store iterators and of
  the deletions.
-/
import TerpCore.Lib.Metered
import TerpCore.Wasm.Drain

namespace Wasm

open Lib List Tables FormedOn

variable {ν β : Type}

/-- Advances of store iterators, and deletions. -/
abbrev Work := ℕ × ℕ

def advance : Metered Work Unit := .charge (1, 0)

def deletes (n : ℕ) : Metered Work Unit := .charge (0, n)

/-! ## The loops with their work -/

/-- The loop over the markers. -/
def scanPending (circuitsLeft depositeesLeft : ℕ) : List (Bytes × Value) → Metered Work (List AccAddress)
  | [] => pure []
  | row :: rows =>
    if depositeesLeft = 0 ∨ circuitsLeft = 0 then pure []
    else do
      advance
      let pending ← scanPending circuitsLeft depositeesLeft rows
      match parseCircuitDepositGCKey row.1 with
      | none => pure pending
      | some addr => pure (addr :: pending)

/-- The loop over the expiry entries. -/
def scanExpired (depositeesLeft : ℕ) (hits : List (UInt64 × AccAddress)) :
    List (Bytes × Value) → Metered Work (List (UInt64 × AccAddress))
  | [] => pure hits
  | row :: rows =>
    if hits.length < depositeesLeft then do
      advance
      match parseCircuitDepositExpiryKey row.1 with
      | none => scanExpired depositeesLeft hits rows
      | some hit => scanExpired depositeesLeft (hits ++ [hit]) rows
    else pure hits

/-- The loop over the index of a creator; it is left without `Next`. -/
def scanCreator (max : ℕ) (ids : List UInt64) : List Bytes → Metered Work (List UInt64 × Bool)
  | [] => pure (ids, false)
  | key :: keys =>
    if key.length = 8 then
      match bigEndianToUint64 key with
      | some id =>
        if max < (ids ++ [id]).length then pure ((ids ++ [id]).take max, true)
        else do
          advance
          scanCreator max (ids ++ [id]) keys
      | none => do
        advance
        scanCreator max ids keys
    else do
      advance
      scanCreator max ids keys

namespace Keeper

variable (k : Keeper ν β)

/-- The deletions of `removeCircuit`, or that of the index entry if there is no circuit. -/
def circuitDeletes (s : Store) (zkID : UInt64) : ℕ :=
  match getCircuitInfo s zkID with
  | some info => (k.circuitRows zkID info).length
  | none => 1

def pruneCircuitMetered (creator : AccAddress) (s : State ν β) (zkID : UInt64) : Metered Work (State ν β) := do
  deletes (k.circuitDeletes s.store zkID)
  pure (k.pruneCircuit creator s zkID)

def pruneCircuitsMetered (creator : AccAddress) : State ν β → List UInt64 → Metered Work (State ν β)
  | s, [] => pure s
  | s, zkID :: ids => do
    let s ← k.pruneCircuitMetered creator s zkID
    pruneCircuitsMetered creator s ids

def pruneCreatorCircuitsMetered (s : State ν β) (creator : AccAddress) (max : ℕ) :
    Metered Work (State ν β × ℕ × Bool) :=
  if max = 0 then pure (s, 0, hasCircuitCreatorIndex s.store creator)
  else do
    let (ids, more) ← scanCreator max [] ((s.store.iterator (getCircuitByCreatorIDPrefix creator)).map Prod.fst)
    let s ← k.pruneCircuitsMetered creator s ids
    pure (s, ids.length, more || hasCircuitCreatorIndex s.store creator)

def pruneAndMarkMetered (s : State ν β) (addr : AccAddress) (max : ℕ) : Metered Work (State ν β × ℕ) := do
  let (s, n, more) ← k.pruneCreatorCircuitsMetered s addr max
  if more then pure ({ s with store := setCircuitDepositGC s.store addr }, n)
  else do
    deletes 1
    pure ({ s with store := deleteCircuitDepositGC s.store addr }, n)

def prunePendingMetered (circuitsLeft depositeesLeft : ℕ) (s : State ν β) :
    List AccAddress → Metered Work (State ν β × Option (ℕ × ℕ))
  | [] => pure (s, some (circuitsLeft, depositeesLeft))
  | addr :: addrs =>
    if depositeesLeft = 0 ∨ circuitsLeft = 0 then pure (s, none)
    else do
      let (s, n) ← k.pruneAndMarkMetered s addr circuitsLeft
      prunePendingMetered (circuitsLeft - n) (depositeesLeft - 1) s addrs

def pruneExpiredMetered (now : UInt64) (circuitsLeft depositeesLeft : ℕ) (s : State ν β) :
    List (UInt64 × AccAddress) → Metered Work (Outcome Err (State ν β))
  | [] => pure (.ok s)
  | (paidUntil, addr) :: hits =>
    if depositeesLeft = 0 ∨ circuitsLeft = 0 then pure (.ok s)
    else if isDue s.store now paidUntil addr then do
      deletes 2
      let store := deleteCircuitDepositExpiry (removeCircuitDepositee s.store addr) paidUntil addr
      match getParams store with
      | .ok params =>
        match params.circuitUploadAccessConfig.allowed (k.bech32 addr) with
        | some true => do
          deletes 1
          pruneExpiredMetered now circuitsLeft (depositeesLeft - 1)
            { s with store := deleteCircuitDepositGC store addr } hits
        | some false => do
          let (s, n) ← k.pruneAndMarkMetered { s with store := store } addr circuitsLeft
          pruneExpiredMetered now (circuitsLeft - n) (depositeesLeft - 1) s hits
        | none => pure .panicked
      | .error e => pure (.error e)
      | .panicked => pure .panicked
    else do
      deletes 1
      pruneExpiredMetered now circuitsLeft depositeesLeft
        { s with store := deleteCircuitDepositExpiry s.store paidUntil addr } hits

def pruneExpiredCircuitDepositsMetered (s : State ν β) (blockTime : Int64) :
    Metered Work (Outcome Err (State ν β)) := do
  let pending ← scanPending maxCircuitDepositGCCircuits maxCircuitDepositGCDepositees
    (s.store.iterator circuitDepositGCPrefix)
  match ← k.prunePendingMetered maxCircuitDepositGCCircuits maxCircuitDepositGCDepositees s pending with
  | (s, none) => pure (.ok s)
  | (s, some (circuitsLeft, depositeesLeft)) => do
    let hits ← scanExpired depositeesLeft []
      (s.store.iteratorBelow circuitDepositExpiryPrefix (be64 (nowUnix blockTime + 1)))
    k.pruneExpiredMetered (nowUnix blockTime) circuitsLeft depositeesLeft s hits

end Keeper

/-! ## Without the work -/

section erasure

theorem scanPending_val {c d : ℕ} (hbudget : ¬ (d = 0 ∨ c = 0)) (rows : List (Bytes × Value)) :
    (scanPending c d rows).val = rows.filterMap fun row => parseCircuitDepositGCKey row.1 := by
  induction rows with
  | nil => rfl
  | cons row rows ih =>
    rw [scanPending, if_neg hbudget, Metered.val_bind, Metered.val_bind, ih]
    cases hparse : parseCircuitDepositGCKey row.1 with
    | none | some => simp [hparse]

theorem scanExpired_val (d : ℕ) (rows : List (Bytes × Value)) : ∀ hits : List (UInt64 × AccAddress),
    hits.length ≤ d → (scanExpired d hits rows).val =
      (hits ++ rows.filterMap fun row => parseCircuitDepositExpiryKey row.1).take d := by
  induction rows with
  | nil =>
    intro hits hle
    simp [scanExpired, take_of_length_le hle]
  | cons row rows ih =>
    intro hits hle
    by_cases hlt : hits.length < d
    · rw [scanExpired, if_pos hlt]
      cases hparse : parseCircuitDepositExpiryKey row.1 with
      | none => simpa [hparse] using ih hits hle
      | some hit =>
        have hnext := ih (hits ++ [hit]) (by rw [length_append]; exact hlt)
        simpa [hparse] using hnext
    · obtain rfl : hits.length = d := by omega
      simp [scanExpired]

theorem scanCreator_val (max : ℕ) (keys : List Bytes) : ∀ ids : List UInt64,
    (scanCreator max ids keys).val = creatorIDs max ids keys := by
  induction keys with
  | nil => exact fun _ => rfl
  | cons key keys ih =>
    intro ids
    rw [scanCreator, creatorIDs]
    split_ifs with hlen
    · cases hid : bigEndianToUint64 key with
      | none => exact ih ids
      | some id =>
        dsimp only
        split_ifs with hmax
        · rfl
        · exact ih _
    · exact ih ids

variable {k : Keeper ν β}

theorem pruneCircuitsMetered_val (creator : AccAddress) (ids : List UInt64) : ∀ s : State ν β,
    (k.pruneCircuitsMetered creator s ids).val = ids.foldl (k.pruneCircuit creator) s := by
  induction ids with
  | nil => exact fun _ => rfl
  | cons id ids ih =>
    intro s
    have hval : (k.pruneCircuitMetered creator s id).val = k.pruneCircuit creator s id := rfl
    rw [Keeper.pruneCircuitsMetered, Metered.val_bind, hval, ih, foldl_cons]

theorem pruneCreatorCircuitsMetered_val (s : State ν β) (creator : AccAddress) (max : ℕ) :
    (k.pruneCreatorCircuitsMetered s creator max).val = k.pruneCreatorCircuits s creator max := by
  unfold Keeper.pruneCreatorCircuitsMetered Keeper.pruneCreatorCircuits
  split_ifs
  · rfl
  · simp only [Metered.val_bind, Metered.val_pure, scanCreator_val, pruneCircuitsMetered_val]

theorem pruneAndMarkMetered_val (s : State ν β) (addr : AccAddress) (max : ℕ) :
    (k.pruneAndMarkMetered s addr max).val = k.pruneAndMark s addr max := by
  rw [Keeper.pruneAndMarkMetered, Metered.val_bind, pruneCreatorCircuitsMetered_val, Keeper.pruneAndMark]
  rcases k.pruneCreatorCircuits s addr max with ⟨t, n, _ | _⟩
  · rfl
  · rfl

theorem prunePendingMetered_val (addrs : List AccAddress) : ∀ (c d : ℕ) (s : State ν β),
    (k.prunePendingMetered c d s addrs).val = k.prunePending c d s addrs := by
  induction addrs with
  | nil => exact fun _ _ _ => rfl
  | cons addr addrs ih =>
    intro c d s
    rw [Keeper.prunePendingMetered, Keeper.prunePending]
    split_ifs
    · rfl
    · rw [Metered.val_bind, pruneAndMarkMetered_val]
      exact ih _ _ _

theorem pruneExpiredMetered_val (now : UInt64) (hits : List (UInt64 × AccAddress)) : ∀ (c d : ℕ) (s : State ν β),
    (k.pruneExpiredMetered now c d s hits).val = k.pruneExpired now c d s hits := by
  induction hits with
  | nil => exact fun _ _ _ => rfl
  | cons hit hits ih =>
    obtain ⟨u, addr⟩ := hit
    intro c d s
    rw [Keeper.pruneExpiredMetered, Keeper.pruneExpired]
    split_ifs
    · rfl
    · dsimp only [Metered.val_bind]
      cases getParams (deleteCircuitDepositExpiry (removeCircuitDepositee s.store addr) u addr) with
      | ok params =>
        dsimp only [Outcome.ok_bind]
        rcases params.circuitUploadAccessConfig.allowed (k.bech32 addr) with _ | _ | _
        · rfl
        · rw [Metered.val_bind, pruneAndMarkMetered_val]
          exact ih _ _ _
        · exact ih _ _ _
      | error | panicked => rfl
    · exact ih _ _ _

theorem pruneExpiredCircuitDepositsMetered_val (s : State ν β) (blockTime : Int64) :
    (k.pruneExpiredCircuitDepositsMetered s blockTime).val = k.pruneExpiredCircuitDeposits s blockTime := by
  have hpending : ((s.store.iterator circuitDepositGCPrefix).filterMap fun row =>
      parseCircuitDepositGCKey row.1) = pendingGC s.store := rfl
  rw [Keeper.pruneExpiredCircuitDepositsMetered, Keeper.pruneExpiredCircuitDeposits, Metered.val_bind,
    Metered.val_bind, prunePendingMetered_val, scanPending_val (by decide), hpending]
  rcases k.prunePending maxCircuitDepositGCCircuits maxCircuitDepositGCDepositees s (pendingGC s.store) with
    ⟨t, _ | ⟨c, d⟩⟩
  · rfl
  · rw [Metered.val_bind, pruneExpiredMetered_val, scanExpired_val _ _ _ (Nat.zero_le _)]
    rfl

end erasure

/-! ## The budgets -/

/-- Every row but the markers has a name, and a value of its kind. -/
def Named (s : Store) : Prop := FormedOn (fun key => ¬ circuitDepositGCPrefix <+: key) s

theorem Formed.named {s : Store} (h : Formed s) : Named s := fun key v _ => h key v trivial

theorem Named.pruneAndMark {k : Keeper ν β} {s : State ν β} (h : Named s.store) (addr : AccAddress) (max : ℕ) :
    Named (k.pruneAndMark s addr max).1.store := by
  have hsweep : Named (k.pruneCreatorCircuits s addr max).1.store := by
    unfold Keeper.pruneCreatorCircuits
    split_ifs
    · exact h
    · exact foldlRecOn (motive := fun t : State ν β => Named t.store) _ _ h fun t ht id _ =>
        (pruneCircuit_touches k addr t id).formedOn ht
  unfold Keeper.pruneAndMark
  generalize k.pruneCreatorCircuits s addr max = r at hsweep ⊢
  rcases r with ⟨t, n, _ | _⟩
  · exact FormedOn.drop hsweep (.gc addr)
  · exact FormedOn.put hsweep (show (Key.gc addr).Holds (.raw [1]) from trivial)

theorem Named.prunePending {k : Keeper ν β} (addrs : List AccAddress) : ∀ {s : State ν β}, Named s.store →
    ∀ c d, Named (k.prunePending c d s addrs).1.store := by
  induction addrs with
  | nil => exact fun hs _ _ => hs
  | cons addr addrs ih =>
    intro s hs c d
    rw [Keeper.prunePending]
    split_ifs
    · exact hs
    · exact ih (hs.pruneAndMark addr c) _ _

section budgets

theorem scanPending_work {c d : ℕ} (hbudget : ¬ (d = 0 ∨ c = 0)) (rows : List (Bytes × Value)) :
    (scanPending c d rows).work = (rows.length, 0) := by
  induction rows with
  | nil => rfl
  | cons row rows ih =>
    rw [scanPending, if_neg hbudget, Metered.work_bind, Metered.work_bind, ih]
    cases parseCircuitDepositGCKey row.1 with
    | none | some => simp [advance, Nat.add_comm]

theorem scanExpired_work {d : ℕ} (rows : List (Bytes × Value))
    (hrows : ∀ row ∈ rows, (parseCircuitDepositExpiryKey row.1).isSome) :
    ∀ hits : List (UInt64 × AccAddress), (scanExpired d hits rows).work.1 ≤ d - hits.length ∧
      (scanExpired d hits rows).work.2 = 0 := by
  induction rows with
  | nil => exact fun _ => ⟨Nat.zero_le _, rfl⟩
  | cons row rows ih =>
    intro hits
    rw [forall_mem_cons] at hrows
    obtain ⟨hit, hhit⟩ := Option.isSome_iff_exists.mp hrows.1
    rw [scanExpired]
    split_ifs with hlt
    · obtain ⟨hadvances, hdeletes⟩ := ih hrows.2 (hits ++ [hit])
      rw [length_append, length_singleton] at hadvances
      rw [hhit]
      change 1 + (scanExpired d (hits ++ [hit]) rows).work.1 ≤ _ ∧ 0 + (scanExpired d (hits ++ [hit]) rows).work.2 = 0
      omega
    · exact ⟨Nat.zero_le _, rfl⟩

theorem scanCreator_work {max : ℕ} (keys : List Bytes) (hkeys : ∀ key ∈ keys, ∃ id, key = be64 id) :
    ∀ ids : List UInt64, (scanCreator max ids keys).work.1 ≤ max - ids.length ∧
      (scanCreator max ids keys).work.2 = 0 := by
  induction keys with
  | nil => exact fun _ => ⟨Nat.zero_le _, rfl⟩
  | cons key keys ih =>
    intro ids
    rw [forall_mem_cons] at hkeys
    obtain ⟨⟨id, rfl⟩, hkeys⟩ := hkeys
    rw [scanCreator, if_pos (length_be64 id), bigEndianToUint64_be64]
    dsimp only
    split_ifs with hmax
    · exact ⟨Nat.zero_le _, rfl⟩
    · obtain ⟨hadvances, hdeletes⟩ := ih hkeys (ids ++ [id])
      rw [length_append, length_singleton] at hadvances hmax
      change 1 + (scanCreator max (ids ++ [id]) keys).work.1 ≤ _ ∧ 0 + (scanCreator max (ids ++ [id]) keys).work.2 = 0
      omega

variable {k : Keeper ν β}

theorem circuitDeletes_le (s : Store) (zkID : UInt64) : k.circuitDeletes s zkID ≤ 5 := by
  unfold Keeper.circuitDeletes
  cases getCircuitInfo s zkID with
  | none => exact Nat.le_add_left 1 4
  | some info =>
    dsimp only [Keeper.circuitRows]
    cases k.accAddressFromBech32 info.creator with
    | none | some => simp

theorem pruneCircuitsMetered_work (creator : AccAddress) (ids : List UInt64) : ∀ s : State ν β,
    (k.pruneCircuitsMetered creator s ids).work.1 = 0 ∧
      (k.pruneCircuitsMetered creator s ids).work.2 ≤ 5 * ids.length := by
  induction ids with
  | nil => exact fun _ => ⟨rfl, Nat.zero_le _⟩
  | cons id ids ih =>
    intro s
    obtain ⟨hadvances, hdeletes⟩ := ih (k.pruneCircuit creator s id)
    have hcircuit := circuitDeletes_le (k := k) s.store id
    have hval : (k.pruneCircuitMetered creator s id).val = k.pruneCircuit creator s id := rfl
    have hwork : (k.pruneCircuitMetered creator s id).work = (0, k.circuitDeletes s.store id) := by
      simp [Keeper.pruneCircuitMetered, deletes]
    rw [Keeper.pruneCircuitsMetered, Metered.work_bind, hval, hwork, Prod.fst_add, Prod.snd_add, hadvances, length_cons]
    exact ⟨rfl, by omega⟩

theorem pruneCreatorCircuitsMetered_work {s : State ν β} (hs : Named s.store) (creator : AccAddress) (max : ℕ) :
    (k.pruneCreatorCircuitsMetered s creator max).work.1 ≤ max ∧
      (k.pruneCreatorCircuitsMetered s creator max).work.2 ≤ 5 * (k.pruneCreatorCircuits s creator max).2.1 := by
  rw [← pruneCreatorCircuitsMetered_val]
  unfold Keeper.pruneCreatorCircuitsMetered
  split_ifs
  · exact ⟨Nat.zero_le _, Nat.zero_le _⟩
  · obtain ⟨ids, hkeys, -, -⟩ := FormedOn.exists_creatorIDs hs (by simp [circuitDepositGCPrefix]) creator
    generalize (s.store.iterator (getCircuitByCreatorIDPrefix creator)).map Prod.fst = keys at hkeys ⊢
    have hscan : (scanCreator max [] keys).work.1 ≤ max - 0 ∧ (scanCreator max [] keys).work.2 = 0 := by
      refine scanCreator_work keys ?_ []
      intro key hkey
      rw [hkeys, mem_map] at hkey
      obtain ⟨id, -, rfl⟩ := hkey
      exact ⟨id, rfl⟩
    rcases hread : scanCreator max [] keys with ⟨⟨found, more⟩, w⟩
    rw [hread] at hscan
    obtain ⟨hadvances, hdeletes⟩ := pruneCircuitsMetered_work (k := k) creator found s
    simp only [Metered.work_bind, Metered.val_bind, Metered.val_pure, Metered.work_pure, add_zero, Prod.fst_add,
      Prod.snd_add] at hscan ⊢
    omega

theorem pruneAndMarkMetered_work {s : State ν β} (hs : Named s.store) (addr : AccAddress) (max : ℕ) :
    (k.pruneAndMarkMetered s addr max).work.1 ≤ max ∧
      (k.pruneAndMarkMetered s addr max).work.2 ≤ 5 * (k.pruneAndMark s addr max).2 + 1 := by
  obtain ⟨hadvances, hdeletes⟩ := pruneCreatorCircuitsMetered_work hs addr max
  have hcount : (k.pruneAndMark s addr max).2 = (k.pruneCreatorCircuits s addr max).2.1 := by
    unfold Keeper.pruneAndMark
    rcases k.pruneCreatorCircuits s addr max with ⟨t, n, more⟩
    cases more <;> rfl
  rw [Keeper.pruneAndMarkMetered, Metered.work_bind, pruneCreatorCircuitsMetered_val, hcount]
  generalize k.pruneCreatorCircuits s addr max = r at hdeletes ⊢
  rcases r with ⟨t, n, _ | _⟩
  · exact ⟨hadvances, Nat.add_le_add_right hdeletes 1⟩
  · exact ⟨hadvances, Nat.le_succ_of_le hdeletes⟩

theorem length_creatorIDs_le {max : ℕ} (keys : List Bytes) : ∀ ids : List UInt64, ids.length ≤ max →
    (creatorIDs max ids keys).1.length ≤ max := by
  induction keys with
  | nil => exact fun _ hle => hle
  | cons key keys ih =>
    intro ids hle
    rw [creatorIDs]
    split_ifs with hlen
    · cases bigEndianToUint64 key with
      | none => exact ih ids hle
      | some id =>
        dsimp only
        split_ifs with hmax
        · exact length_take_le ..
        · exact ih _ (Nat.le_of_not_lt hmax)
    · exact ih ids hle

theorem pruneAndMark_count_le (s : State ν β) (addr : AccAddress) (max : ℕ) : (k.pruneAndMark s addr max).2 ≤ max := by
  unfold Keeper.pruneAndMark Keeper.pruneCreatorCircuits
  split_ifs
  · exact Nat.zero_le _
  · exact length_creatorIDs_le _ [] (Nat.zero_le _)

/-- The first loop pays for its work with its budgets: `C` advances and one deletion for each address, and five
deletions for each circuit. -/
theorem prunePendingMetered_work {C : ℕ} (addrs : List AccAddress) : ∀ (c d : ℕ) (s : State ν β),
    Named s.store → c ≤ C →
      let left := (k.prunePending c d s addrs).2.getD (0, 0)
      (k.prunePendingMetered c d s addrs).work.1 + C * left.2 ≤ C * d ∧
        (k.prunePendingMetered c d s addrs).work.2 + (5 * left.1 + left.2) ≤ 5 * c + d ∧ left.1 ≤ C := by
  induction addrs with
  | nil =>
    simp [Keeper.prunePendingMetered, Keeper.prunePending]
  | cons addr addrs ih =>
    intro c d s hs hc
    rw [Keeper.prunePendingMetered, Keeper.prunePending]
    split_ifs with hbudget
    · simp
    · have hsweep := pruneAndMarkMetered_work (k := k) hs addr c
      have hcount := pruneAndMark_count_le (k := k) s addr c
      have hformed := hs.pruneAndMark (k := k) addr c
      rw [Metered.work_bind, pruneAndMarkMetered_val]
      generalize k.pruneAndMark s addr c = r at hsweep hcount hformed ⊢
      rcases r with ⟨t, n⟩
      have hrest := ih (c - n) (d - 1) t hformed (by omega)
      have hd : C * d = C * (d - 1) + C := by
        rw [← Nat.mul_succ, Nat.succ_eq_add_one, Nat.sub_add_cancel (by omega)]
      dsimp only [Prod.fst_add, Prod.snd_add] at hsweep hcount hrest ⊢
      omega

theorem pruneExpiredMetered_work (now : UInt64) {C : ℕ} (hits : List (UInt64 × AccAddress)) :
    ∀ (c d : ℕ) (s : State ν β), Named s.store → c ≤ C → (k.pruneExpiredMetered now c d s hits).work.1 ≤ C * d ∧
        (k.pruneExpiredMetered now c d s hits).work.2 ≤ 5 * c + 3 * hits.length := by
  induction hits with
  | nil => exact fun _ _ _ _ _ => ⟨Nat.zero_le _, Nat.zero_le _⟩
  | cons hit hits ih =>
    obtain ⟨u, addr⟩ := hit
    intro c d s hs hc
    rw [Keeper.pruneExpiredMetered, length_cons]
    split_ifs with hbudget hdue
    · exact ⟨Nat.zero_le _, Nat.zero_le _⟩
    · have hlapse : Named (deleteCircuitDepositExpiry (removeCircuitDepositee s.store addr) u addr) :=
        FormedOn.drop (FormedOn.drop hs (.depositee addr)) (.expiry u addr)
      have hd : C * d = C * (d - 1) + C := by
        rw [← Nat.mul_succ, Nat.succ_eq_add_one, Nat.sub_add_cancel (by omega)]
      dsimp only [Metered.work_bind, deletes, Metered.work_charge]
      generalize deleteCircuitDepositExpiry (removeCircuitDepositee s.store addr) u addr = lapsed at hlapse ⊢
      cases getParams lapsed with
      | ok params =>
        dsimp only
        rcases params.circuitUploadAccessConfig.allowed (k.bech32 addr) with _ | _ | _
        · simp
          omega
        · have hlapsed : Named (State.store { s with store := lapsed }) := hlapse
          have hsweep := pruneAndMarkMetered_work (k := k) hlapsed addr c
          have hcount := pruneAndMark_count_le (k := k) { s with store := lapsed } addr c
          have hformed := hlapsed.pruneAndMark (k := k) addr c
          rw [Metered.work_bind, pruneAndMarkMetered_val]
          generalize k.pruneAndMark _ addr c = r at hsweep hcount hformed ⊢
          rcases r with ⟨t, n⟩
          have hrest := ih (c - n) (d - 1) t hformed (by omega)
          dsimp only [Prod.fst_add, Prod.snd_add] at hsweep hcount hrest ⊢
          omega
        · have hrest := ih c (d - 1) { s with store := deleteCircuitDepositGC lapsed addr }
            (FormedOn.drop hlapse (.gc addr)) hc
          dsimp only [Metered.work_bind, Metered.work_charge, Prod.fst_add, Prod.snd_add] at hrest ⊢
          omega
      | error e =>
        simp
        omega
      | panicked =>
        simp
        omega
    · have hrest := ih c d { s with store := deleteCircuitDepositExpiry s.store u addr }
        (FormedOn.drop hs (.expiry u addr)) hc
      dsimp only [Metered.work_bind, deletes, Metered.work_charge, Prod.fst_add, Prod.snd_add] at hrest ⊢
      omega

/-- All advances but one for each marker, and all deletions, are paid for by the budgets. -/
theorem pruneExpiredCircuitDepositsMetered_work {s : State ν β} (hs : Named s.store) (blockTime : Int64) :
    let markers := (s.store.iterator circuitDepositGCPrefix).length
    let work := (k.pruneExpiredCircuitDepositsMetered s blockTime).work
    markers ≤ work.1 ∧ work.1 ≤ markers + (maxCircuitDepositGCCircuits + 1) * maxCircuitDepositGCDepositees ∧
      work.2 ≤ 5 * maxCircuitDepositGCCircuits + 3 * maxCircuitDepositGCDepositees := by
  have hpending := prunePendingMetered_work (k := k)
    (scanPending maxCircuitDepositGCCircuits maxCircuitDepositGCDepositees
      (s.store.iterator circuitDepositGCPrefix)).val maxCircuitDepositGCCircuits maxCircuitDepositGCDepositees s hs
    le_rfl
  have hnamed := Named.prunePending (k := k) (scanPending maxCircuitDepositGCCircuits maxCircuitDepositGCDepositees
    (s.store.iterator circuitDepositGCPrefix)).val hs maxCircuitDepositGCCircuits maxCircuitDepositGCDepositees
  rw [Keeper.pruneExpiredCircuitDepositsMetered, Metered.work_bind, Metered.work_bind, prunePendingMetered_val,
    scanPending_work (by decide)]
  generalize k.prunePending maxCircuitDepositGCCircuits maxCircuitDepositGCDepositees s _ = r at hpending hnamed ⊢
  have hD : maxCircuitDepositGCDepositees = 8 := rfl
  have hCd : ∀ d, maxCircuitDepositGCCircuits * d = 2 * d := fun _ => rfl
  have hbound : (maxCircuitDepositGCCircuits + 1) * maxCircuitDepositGCDepositees = 24 := rfl
  rcases r with ⟨t, _ | ⟨c, d⟩⟩
  · simp only [Prod.fst_add, Prod.snd_add, Metered.work_pure, Prod.fst_zero, Prod.snd_zero, hCd] at hpending ⊢
    omega
  · have hrows : ∀ e ∈ t.store.iteratorBelow circuitDepositExpiryPrefix (be64 (nowUnix blockTime + 1)),
        (parseCircuitDepositExpiryKey e.1).isSome := by
      rintro ⟨key, v⟩ hmem
      obtain ⟨hit, rfl⟩ := exists_expiry hnamed (by simp [circuitDepositGCPrefix])
        (KVStore.mem_iterator.mp (mem_filter.mp hmem).1)
      simp
    have hscan := scanExpired_work (d := d) _ hrows []
    have hlen : (scanExpired d []
        (t.store.iteratorBelow circuitDepositExpiryPrefix (be64 (nowUnix blockTime + 1)))).val.length ≤ d := by
      rw [scanExpired_val d _ [] (Nat.zero_le d)]
      exact length_take_le ..
    have hexpired := pruneExpiredMetered_work (k := k) (nowUnix blockTime)
      (scanExpired d [] (t.store.iteratorBelow circuitDepositExpiryPrefix (be64 (nowUnix blockTime + 1)))).val
      c d t hnamed hpending.2.2
    simp only [Option.getD_some, Prod.fst_add, Prod.snd_add, Metered.work_bind, hCd] at hpending hscan hexpired ⊢
    omega

end budgets

/-! ## The markers -/

section markers

variable {k : Keeper ν β}

/-- One call does a bounded amount of work on some states if, and only if, they have a bounded number of
markers. -/
theorem gc_work_bounded_iff (F : State ν β → Prop) (hF : ∀ s, F s → Named s.store) :
    (∃ B, ∀ s blockTime, F s → (k.pruneExpiredCircuitDepositsMetered s blockTime).work.1 ≤ B ∧
        (k.pruneExpiredCircuitDepositsMetered s blockTime).work.2 ≤ B) ↔
      ∃ N, ∀ s, F s → (s.store.iterator circuitDepositGCPrefix).length ≤ N := by
  constructor
  · rintro ⟨B, hB⟩
    refine ⟨B, fun s hs => ?_⟩
    obtain ⟨hmarkers, -, -⟩ := pruneExpiredCircuitDepositsMetered_work (hF s hs) 0
    exact hmarkers.trans (hB s 0 hs).1
  · rintro ⟨N, hN⟩
    refine ⟨N + 34, fun s blockTime hs => ?_⟩
    have hbound : (maxCircuitDepositGCCircuits + 1) * maxCircuitDepositGCDepositees = 24 := rfl
    have hdeletes : 5 * maxCircuitDepositGCCircuits + 3 * maxCircuitDepositGCDepositees = 34 := rfl
    obtain ⟨-, hadvances, hdeleted⟩ := pruneExpiredCircuitDepositsMetered_work (k := k) (hF s hs) blockTime
    have hmarkers := hN s hs
    omega

/-! ## The markers of reachable states -/

/-- Nobody is marked, or one address is and no circuit may be removed any more. -/
def Marks (circuitsLeft : ℕ) (s : Store) : Prop :=
  (∀ addr, row s (.gc addr) = none) ∨ circuitsLeft = 0 ∧ ∃ addr, ∀ a ≠ addr, row s (.gc a) = none

variable {c : ℕ} {s : State ν β} {keys : List Bytes}

theorem Marks.congr {s t : Store} (h : Marks c s) (hrows : ∀ addr, row t (.gc addr) = row s (.gc addr)) :
    Marks c t := by
  simpa only [Marks, hrows] using h

theorem Marks.zero {s : Store} (h : Marks c s) : Marks 0 s := by
  rcases h with hnone | ⟨-, hone⟩
  · exact .inl hnone
  · exact .inr ⟨rfl, hone⟩

theorem Marks.unmarked {s : Store} (h : Marks c s) (hc : c ≠ 0) (addr : AccAddress) : row s (.gc addr) = none := by
  rcases h with hnone | ⟨hzero, -⟩
  · exact hnone addr
  · exact absurd hzero hc

theorem Marks.drop_gc {s : Store} (h : Marks c s) (addr : AccAddress) : Marks c (drop s (.gc addr)) := by
  have hdrop : ∀ a, row s (.gc a) = none → row (drop s (.gc addr)) (.gc a) = none := by
    intro a ha
    rw [row_drop]
    split_ifs
    · rfl
    · exact ha
  rcases h with hnone | ⟨hc, addr', hone⟩
  · exact .inl fun a => hdrop a (hnone a)
  · exact .inr ⟨hc, addr', fun a ha => hdrop a (hone a ha)⟩

theorem Marks.length_le {s : Store} (h : Marks 0 s) (hs : Formed s) : (pendingGC s).length ≤ 1 := by
  obtain ⟨hnodup, hmem⟩ := pendingGC_spec hs
  obtain ⟨addr, hone⟩ : ∃ addr, ∀ a ∈ pendingGC s, a = addr := by
    rcases h with hnone | ⟨-, addr, hone⟩
    · exact ⟨⟨[0], by simp, by simp⟩, fun a ha => by simpa [hnone] using (hmem a).mp ha⟩
    · refine ⟨addr, fun a ha => ?_⟩
      by_contra hne
      simpa [hone a hne] using (hmem a).mp ha
  have hsub : pendingGC s ⊆ [addr] := fun a ha => mem_singleton.mpr (hone a ha)
  exact (hnodup.subperm hsub).length_le

theorem Filed.marks_sweep {addr : AccAddress} (h : Filed k s.store)
    (hothers : ∀ a ≠ addr, row s.store (.gc a) = none) (max : ℕ) :
    Marks (max - (k.pruneAndMark s addr max).2) (k.pruneAndMark s addr max).1.store := by
  have hrest : ∀ a ≠ addr, row (k.pruneAndMark s addr max).1.store (.gc a) = none := fun a ha =>
    (row_pruneAndMark h.formed (by simp) (by simpa using Ne.symm ha) max).trans (hothers a ha)
  obtain ⟨ids, -, -, hn, ⟨hfull, -⟩ | heq⟩ := pruneAndMark_full h addr max
  · exact .inr ⟨by omega, addr, hrest⟩
  · refine .inl fun a => ?_
    by_cases ha : a = addr
    · rw [heq, ha]
      exact row_drop_self ..
    · exact hrest a ha

theorem pruneExpired_marks {now : UInt64} : ∀ (hits : List (UInt64 × AccAddress)) (c d : ℕ) (s s' : State ν β),
    Filed k s.store → Marks c s.store → k.pruneExpired now c d s hits = .ok s' → Marks 0 s'.store
  | [], _, _, _, _, _, hmarks, heq => Outcome.ok.inj heq ▸ hmarks.zero
  | (u, addr) :: hits, c, d, s, s', h, hmarks, heq => by
    by_cases hbudget : d = 0 ∨ c = 0
    · rw [Keeper.pruneExpired, if_pos hbudget] at heq
      exact Outcome.ok.inj heq ▸ hmarks.zero
    · by_cases hdue : isDue s.store now u addr = true
      · have hlapse := h.lapse (isDue_eq_true hdue).1
        have hmarks' : Marks c (s.lapse u addr).store := hmarks.congr (by simp [row_lapse])
        rcases pruneExpired_due hbudget hdue heq with ⟨-, heq⟩ | ⟨-, heq⟩
        · exact pruneExpired_marks hits _ _ _ s' (hlapse.drop_gc addr) (hmarks'.drop_gc addr) heq
        · -- nobody is marked while the budget lasts
          have hnone := hmarks'.unmarked fun hc => hbudget (.inr hc)
          exact pruneExpired_marks hits _ _ _ s' (hlapse.sweep (by simp [row_lapse]) c)
            (hlapse.marks_sweep (fun a _ => hnone a) c) heq
      · rw [pruneExpired_stale hbudget hdue] at heq
        exact pruneExpired_marks hits _ _ _ s' (h.drop_expiry u addr)
          (hmarks.congr fun a => row_drop_of_ne (by simp)) heq

section

variable (h : Filed k s.store) (hmarks : Marks 0 s.store)

include h hmarks

/-- The first loop ends without a marker or without a circuit left to remove. -/
theorem prunePending_marks {d : ℕ} (hc : c ≠ 0)
    (hd : d ≠ 0) : ∃ t c' d', k.prunePending c d s (pendingGC s.store) = (t, some (c', d')) ∧ Filed k t.store ∧
      Marks c' t.store := by
  obtain ⟨-, hmem⟩ := pendingGC_spec h.formed
  have hle := hmarks.length_le h.formed
  cases hpending : pendingGC s.store with
  | nil =>
    refine ⟨s, c, d, rfl, h, .inl fun addr => ?_⟩
    rw [← Option.not_isSome_iff_eq_none, ← hmem, hpending]
    exact not_mem_nil
  | cons addr addrs =>
    rw [hpending, length_cons] at hle
    obtain rfl := eq_nil_of_length_eq_zero (l := addrs) (by omega)
    have hunpaid := h.indexed.unpaid ((hmem addr).mp (by simp [hpending]))
    refine ⟨_, _, _, prunePending_cons (by simp [hc, hd]), h.sweep hunpaid c, h.marks_sweep (fun a ha => ?_) c⟩
    rw [← Option.not_isSome_iff_eq_none, ← hmem, hpending]
    simpa using ha

theorem prune_marks {s' : State ν β} {blockTime : Int64}
    (heq : k.pruneExpiredCircuitDeposits s blockTime = .ok s') : Marks 0 s'.store := by
  obtain ⟨t, c, d, hpending, ht, hmarks⟩ := prunePending_marks h hmarks (c := maxCircuitDepositGCCircuits)
    (d := maxCircuitDepositGCDepositees) (by decide) (by decide)
  simp only [Keeper.pruneExpiredCircuitDeposits, hpending] at heq
  exact pruneExpired_marks _ c d t s' ht hmarks heq

theorem exec_marks {s' : State ν β} {op : Op} (heq : k.exec s op = .ok s') : Marks 0 s'.store := by
  cases op with
  | payCircuitDeposit blockTime payer years =>
    obtain ⟨hgc, -, hother⟩ := payCircuitDeposit_rows heq
    refine (hmarks.drop_gc payer).congr fun addr => ?_
    rw [row_drop]
    split_ifs with haddr
    · rw [← Key.gc.inj haddr, hgc]
    · exact (hother addr (by simpa [eq_comm] using haddr)).1
  | endBlock => exact prune_marks h hmarks heq
  | _ => exact hmarks.congr fun addr => (exec_touches h.formed heq).row_eq (by simp)

end

/-- At most one address is marked in a state that is reached. -/
theorem run_marks (p : Params) (vm : ν) (app : β) (ops : List Op) (hread : ∀ op ∈ ops, k.Reads op)
    (hlen : ops.length < 2 ^ 63) : (pendingGC (run k.step ⟨initialStore p, vm, app⟩ ops).store).length ≤ 1 := by
  obtain ⟨-, -, -, h, hmarks⟩ := run_numbered_along (J := fun s : State ν β => Filed k s.store ∧ Marks 0 s.store)
    (fun _ hn hlt hread heq h => ⟨exec_filed hn hlt hread h.1 heq, exec_marks h.1 h.2 heq⟩)
    ⟨run_filed p vm app [] (by simp) (by simp), .inl fun addr => row_initialStore (by simp)⟩ ops hlen (.of_mem hread _)
  exact hmarks.length_le h.formed

/-- One call on a state that is reached does a bounded amount of work. -/
theorem run_gc_work_le (p : Params) (vm : ν) (app : β) (ops : List Op) (hread : ∀ op ∈ ops, k.Reads op)
    (hlen : ops.length < 2 ^ 63) (blockTime : Int64) :
    let call := k.pruneExpiredCircuitDepositsMetered (run k.step ⟨initialStore p, vm, app⟩ ops) blockTime
    call.work.1 ≤ (maxCircuitDepositGCCircuits + 1) * maxCircuitDepositGCDepositees + 1 ∧
      call.work.2 ≤ 5 * maxCircuitDepositGCCircuits + 3 * maxCircuitDepositGCDepositees := by
  have hone := run_marks p vm app ops hread hlen
  have hformed := (run_filed p vm app ops hread hlen).formed
  have hkeys := congrArg List.length (pendingGC_keys hformed).1
  rw [length_map, length_map] at hkeys
  obtain ⟨-, hadvances, hdeletes⟩ := pruneExpiredCircuitDepositsMetered_work (k := k) hformed.named blockTime
  omega

/-! ## States with many markers -/

/-- Markers with the given keys, beside some params. -/
def marked (keys : List Bytes) : Store :=
  keys.foldl (fun s key => s.set (circuitDepositGCPrefix ++ key) (.raw [1])) (initialStore defaultParams)

theorem get_marked {key : Bytes} (hkey : key ∈ keys) :
    (marked keys).get (circuitDepositGCPrefix ++ key) = some (.raw [1]) := by
  rw [marked, ← KVStore.setRows_map _ fun key => (circuitDepositGCPrefix ++ key, Value.raw [1])]
  exact KVStore.get_setRows_of_mem (by simp) (mem_map_of_mem hkey)

theorem marked_named (keys : List Bytes) : Named (marked keys) := by
  refine foldlRecOn keys _ (initialStore_formed defaultParams).named fun s hs key _ key' v hkey hget => ?_
  rw [KVStore.get_set, if_neg (by rintro rfl; exact hkey (prefix_append ..))] at hget
  exact hs key' v hkey hget

theorem length_le_marked (hnodup : keys.Nodup) :
    keys.length ≤ ((marked keys).iterator circuitDepositGCPrefix).length := by
  have hsub : keys ⊆ ((marked keys).iterator circuitDepositGCPrefix).map Prod.fst := by
    intro key hkey
    refine mem_map.mpr ⟨(key, .raw [1]), ?_, rfl⟩
    rw [KVStore.mem_iterator, get_marked hkey]
  have hle := (hnodup.subperm hsub).length_le
  rwa [length_map] at hle

theorem length_le_work (hnodup : keys.Nodup) (vm : ν) (app : β) (blockTime : Int64) :
    keys.length ≤ (k.pruneExpiredCircuitDepositsMetered ⟨marked keys, vm, app⟩ blockTime).work.1 := by
  have hwork := pruneExpiredCircuitDepositsMetered_work (k := k) (s := ⟨marked keys, vm, app⟩)
    (marked_named keys) blockTime
  exact (length_le_marked hnodup).trans hwork.1

theorem marked_filed (vm : ν) (app : β) (addrs : List AccAddress) :
    Filed k (marked (addrs.map getCircuitDepositGCKey)) := by
  rw [marked, foldl_map]
  refine (foldlRecOn (motive := fun s => Filed k s ∧ ∀ addr, row s (.depositee addr) = none) addrs _
    ⟨run_filed defaultParams vm app [] (by simp) (by simp), fun addr => row_initialStore (by simp)⟩ ?_).1
  rintro s ⟨hfiled, hunpaid⟩ addr -
  refine ⟨Filed.put_gc (s := ⟨s, vm, app⟩) hfiled (hunpaid addr), fun addr' => ?_⟩
  change row (put s (.gc addr) _) _ = none
  rw [row_put_of_ne (by simp), hunpaid]

/-- Two markers. -/
theorem gc_work_two_markers :
    ∃ B, ∀ s blockTime, s = (⟨marked [[1, 1], [1, 2]], {}, ()⟩ : State Files Unit) →
      (sample.keeper.pruneExpiredCircuitDepositsMetered s blockTime).work.1 ≤ B ∧
        (sample.keeper.pruneExpiredCircuitDepositsMetered s blockTime).work.2 ≤ B := by
  refine (gc_work_bounded_iff (k := sample.keeper) (· = ⟨marked [[1, 1], [1, 2]], {}, ()⟩) ?_).mpr ⟨2, ?_⟩
  · rintro s rfl
    exact marked_named _
  · rintro s rfl
    decide +kernel

/-- No number bounds the work of one call on all states, and none up to `2 ^ 64` on those in order. -/
theorem gc_work_unbounded : (¬ ∃ B, ∀ (s : State Files Unit) (blockTime : Int64),
      (sample.keeper.pruneExpiredCircuitDepositsMetered s blockTime).work.1 ≤ B ∧
        (sample.keeper.pruneExpiredCircuitDepositsMetered s blockTime).work.2 ≤ B) ∧
    ∀ n ≤ 2 ^ 64, ∃ s : State Files Unit, Filed sample.keeper s.store ∧
      n ≤ (sample.keeper.pruneExpiredCircuitDepositsMetered s 0).work.1 := by
  constructor
  · rintro ⟨B, hB⟩
    have hnodup : ((List.range (B + 1)).map fun n => List.replicate n (0 : UInt8)).Nodup := by
      refine List.Nodup.map ?_ nodup_range
      intro n m heq
      simpa using congrArg List.length heq
    have hle := length_le_work (k := sample.keeper) hnodup {} () 0
    rw [length_map, length_range] at hle
    exact absurd (hle.trans (hB _ 0).1) (by omega)
  · intro n hn
    let addrs : List AccAddress := (List.range n).map fun i =>
      ⟨List.replicate 12 0 ++ be64 (UInt64.ofNat i), by simp, by simp⟩
    have hnodup : (addrs.map getCircuitDepositGCKey).Nodup := by
      rw [map_map]
      refine List.Nodup.map_on ?_ nodup_range
      intro i hi j hj heq
      rw [mem_range] at hi hj
      have haddr := append_cancel_left (congrArg AccAddress.bytes (AccAddress.lengthPrefixed_inj.mp heq))
      have hid := congrArg UInt64.toNat (be64_injective haddr)
      rwa [UInt64.toNat_ofNat', UInt64.toNat_ofNat', Nat.mod_eq_of_lt (by omega), Nat.mod_eq_of_lt (by omega)] at hid
    refine ⟨⟨marked (addrs.map getCircuitDepositGCKey), {}, ()⟩, marked_filed {} () addrs, ?_⟩
    have hle := length_le_work (k := sample.keeper) hnodup {} () 0
    rwa [length_map, length_map, length_range] at hle

end markers

end Wasm
