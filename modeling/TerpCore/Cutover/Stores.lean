/-
  The stores of the application and the copies that the change of the hash function makes.
-/
import TerpCore.Lib.KVStore
import TerpCore.Lib.Outcome

namespace Cutover

open Lib KVStore List

/-! ## Names -/

/-- The stores whose proofs other chains check. -/
def sha256Stores : List Bytes :=
  [ascii "ibc", ascii "transfer", ascii "icahost", ascii "icacontroller", ascii "packetfowardmiddleware",
    ascii "packetforwardmiddleware", ascii "08-wasm", ascii "capability"]

def isIBCStore (storeName : Bytes) : Bool := sha256Stores.contains storeName

def destName (src : Bytes) : Bytes := ascii "b3-" ++ src

def migratableStores : List Bytes :=
  [ascii "bank", ascii "staking", ascii "acc", ascii "crisis", ascii "mint", ascii "distribution",
    ascii "slashing", ascii "gov", ascii "consensus", ascii "feegrant", ascii "evidence", ascii "authz",
    ascii "wasm", ascii "feeshare", ascii "globalfee", ascii "drip", ascii "smartaccount",
    ascii "tokenfactory", ascii "hashmerchant", ascii "cw-hooks"]

def destStores : List Bytes := migratableStores.map destName

def dualStorePairs : List (Bytes × Bytes) := migratableStores.map fun s => (s, destName s)

/-! ## Layouts -/

/-- The build constants of a binary. -/
structure Layout where
  mountDestStores : Bool
  keepersOnDest : Bool
  mountHooksStore : Bool

def v63 : Layout := ⟨true, false, false⟩
def v64 : Layout := ⟨true, true, false⟩

def alwaysStoreNames : List Bytes :=
  [ascii "upgrade", ascii "ibc", ascii "transfer", ascii "08-wasm", ascii "icahost", ascii "icacontroller",
    ascii "packetfowardmiddleware", ascii "params"]

namespace Layout

/-- `GenerateKeys`: the names that are mounted. -/
def generateKeys (l : Layout) : List Bytes :=
  alwaysStoreNames ++ (if l.mountHooksStore then [ascii "hooks-for-ibc"] else []) ++
    (if l.keepersOnDest then [] else migratableStores) ++ (if l.mountDestStores then destStores else [])

/-- The key of a store, which is known by its name; `none` is nil. -/
def getKey (l : Layout) (storeKey : Bytes) : Option Bytes :=
  if l.generateKeys.contains storeKey then some storeKey else none

def keeperKey (l : Layout) (storeKey : Bytes) : Option Bytes :=
  if l.keepersOnDest then
    match l.getKey (destName storeKey) with
    | some dst => some dst
    | none => l.getKey storeKey
  else l.getKey storeKey

end Layout

/-- The store keys of the keepers, in the order in which the application makes them. -/
def keeperStoreKeys : List Bytes :=
  [ascii "consensus", ascii "acc", ascii "bank", ascii "staking", ascii "mint", ascii "feegrant",
    ascii "smartaccount", ascii "distribution", ascii "slashing", ascii "crisis", ascii "upgrade", ascii "ibc",
    ascii "authz", ascii "gov", ascii "transfer", ascii "packetfowardmiddleware", ascii "icahost",
    ascii "icacontroller", ascii "evidence", ascii "tokenfactory", ascii "wasm", ascii "08-wasm",
    ascii "feeshare", ascii "globalfee", ascii "drip", ascii "hashmerchant", ascii "cw-hooks"]

/-! ## Copies -/

/-- The copy of a store, how many keys it set and how many it deleted. -/
def syncKVStore (src dst : KVStore Bytes) : KVStore Bytes × ℕ × ℕ :=
  let rows := src.iterator []
  let copied := dst.setRows rows
  let extra := ((copied.iterator []).map Prod.fst).filter fun key => !(rows.map Prod.fst).contains key
  (extra.foldl delete copied, rows.length, extra.length)

def copyKVStore (src dst : KVStore Bytes) : KVStore Bytes × ℕ :=
  ((syncKVStore src dst).1, (syncKVStore src dst).2.1)

theorem syncKVStore_eq (src dst : KVStore Bytes) : (syncKVStore src dst).1 = src := by
  refine ext fun key => ?_
  have hlive : ((src.iterator []).map Prod.fst).contains key = (src.get key).isSome := by
    rw [Bool.eq_iff_iff, contains_iff_mem, mem_map, Option.isSome_iff_exists]
    constructor
    · rintro ⟨⟨k, v⟩, hmem, rfl⟩
      exact ⟨v, mem_iterator.mp hmem⟩
    · rintro ⟨v, hv⟩
      exact ⟨(key, v), mem_iterator.mpr hv, rfl⟩
  rw [syncKVStore, get_foldl_delete]
  cases hget : src.get key with
  | some v =>
    -- a live key is not deleted
    rw [hget] at hlive
    have hextra : (((((dst.setRows (src.iterator [])).iterator []).map Prod.fst).filter fun key =>
        !((src.iterator []).map Prod.fst).contains key).contains key) = false := by
      rw [← Bool.not_eq_true, contains_iff_mem, mem_filter, hlive]
      simp
    rw [hextra]
    refine get_setRows_of_mem ?_ (mem_iterator.mpr hget)
    rintro ⟨k, v'⟩ hmem rfl
    have hrow : src.get k = some v' := mem_iterator.mp hmem
    exact Option.some.inj (hrow.symm.trans hget)
  | none =>
    rw [hget] at hlive
    have hkeep : (dst.setRows (src.iterator [])).get key = dst.get key := by
      refine get_setRows_of_ne ?_
      rintro ⟨k, v⟩ hmem rfl
      have hrow : src.get k = some v := mem_iterator.mp hmem
      simp [hget] at hrow
    split_ifs with hextra
    · rfl
    · cases hdst : dst.get key with
      | none => rw [hkeep, hdst]
      | some v =>
        -- a key of the second store only is among the extra ones
        refine absurd ?_ hextra
        rw [contains_iff_mem, mem_filter, hlive]
        refine ⟨mem_map.mpr ⟨(key, v), mem_iterator.mpr ?_, rfl⟩, rfl⟩
        rw [nil_append, hkeep, hdst]

end Cutover
