/-
  The keys of the store.
-/
import TerpCore.Hashmerchant.Genesis
import TerpCore.Lib.Split

namespace Hashmerchant

open Lib KVStore

/-! ## Keys -/

inductive RecordId where
  | chain (chainUID : Bytes)
  | contract (contractAddr : Bytes)
  | escrow (contractAddr : Bytes)
  | hashRoot (chainUID algo : Bytes)
  | params
  | pruneEpoch
  | oracleSources (chainUID : Bytes)
  deriving DecidableEq

def RecordId.key : RecordId → Bytes
  | .chain chainUID => keyRegisteredChain chainUID
  | .contract contractAddr => keyRegisteredContract contractAddr
  | .escrow contractAddr => keyEscrow contractAddr
  | .hashRoot chainUID algo => keyHashRoot chainUID algo
  | .params => keyPrefixParams
  | .pruneEpoch => keyPrefixPruneEpoch
  | .oracleSources chainUID => oracleSourcesKey chainUID

def RecordId.Named : RecordId → Prop
  | .chain id | .contract id | .escrow id => id ≠ []
  | .hashRoot chainUID algo => chainUID ≠ [] ∧ algo ≠ []
  | .params | .pruneEpoch => True
  | .oracleSources id => id ≠ []

/-- The identifiers of two roots are joined to one string. -/
def SharesKey (root root' : Bytes × Bytes) : Prop := Ambiguous 0x7c root root'

/-- Two records are roots that share a key. -/
def RecordId.Shared : RecordId → RecordId → Prop
  | .hashRoot chainUID algo, .hashRoot chainUID' algo' => SharesKey (chainUID, algo) (chainUID', algo')
  | _, _ => False

theorem keyHashRoot_eq (chainUID algo : Bytes) : keyHashRoot chainUID algo = 0x04 :: (chainUID ++ 0x7c :: algo) := by
  simp [keyHashRoot, keyPrefixHashRoots, ascii]

theorem keyHashRoot_inj_iff {root root' : Bytes × Bytes} :
    (keyHashRoot root.1 root.2 = keyHashRoot root'.1 root'.2 → root = root') ↔ ¬ SharesKey root root' := by
  rw [keyHashRoot_eq, keyHashRoot_eq, List.cons_inj_right]
  exact append_sep_inj_iff

theorem keyHashRoot_of_sharesKey {root root' : Bytes × Bytes} (h : SharesKey root root') :
    keyHashRoot root.1 root.2 = keyHashRoot root'.1 root'.2 := by
  rw [keyHashRoot_eq, keyHashRoot_eq, List.cons_inj_right]
  exact append_sep_eq_iff.mpr (.inr h)

theorem key_inj_iff {id id' : RecordId} (h : id.Named) (h' : id'.Named) :
    (id.key = id'.key → id = id') ↔ ¬ id.Shared id' := by
  cases id <;> cases id' <;>
    simp_all [RecordId.key, RecordId.Named, RecordId.Shared, keyRegisteredChain, keyRegisteredContract, keyEscrow,
      keyHashRoot_eq, oracleSourcesKey, keyPrefixRegisteredChains, keyPrefixRegisteredContracts, keyPrefixEscrow,
      keyPrefixParams, keyPrefixPruneEpoch, oracleSourcesKeyPrefix]
  -- two kinds have different bytes, and one identifier is read back; two roots are left
  case hashRoot.hashRoot chainUID algo chainUID' algo' =>
    rw [SharesKey, ← append_sep_inj_iff, Prod.mk.injEq]

/-! ## Roots -/

theorem getHashRoot_setHashRoot_iff {root : HashRoot} {chainUID algo : Bytes}
    (hne : (root.chainUid, root.algo) ≠ (chainUID, algo)) :
    (∀ s, getHashRoot (setHashRoot s root) chainUID algo = getHashRoot s chainUID algo) ↔
      ¬ SharesKey (root.chainUid, root.algo) (chainUID, algo) := by
  constructor
  · intro h hshares
    have hkey := keyHashRoot_of_sharesKey hshares
    have hempty := h .empty
    simp [getHashRoot, setHashRoot, hkey, KVStore.get_set_self] at hempty
  · intro hshares s
    have hkey : keyHashRoot root.chainUid root.algo ≠ keyHashRoot chainUID algo :=
      fun h => hne (keyHashRoot_inj_iff.mpr hshares h)
    rw [getHashRoot, getHashRoot, setHashRoot, get_set_of_ne _ _ hkey]

/-- A root is stored under its own key. -/
def Holds (s : Store) (root : HashRoot) : Prop :=
  s.get (keyHashRoot root.chainUid root.algo) = some (.hashRoot root)

/-- The iteration over a chain visits each stored root of the chain once, and no other. -/
def VisitsOwn (s : Store) (chainUID : Bytes) : Prop :=
  (hashRoots s chainUID).Nodup ∧ ∀ root, root ∈ hashRoots s chainUID ↔ Holds s root ∧ root.chainUid = chainUID

variable {s : Store}

theorem hashRoots_key (chainUID algo : Bytes) :
    keyPrefixHashRoots ++ (chainUID ++ ascii "|") ++ algo = keyHashRoot chainUID algo := by
  simp [keyHashRoot]

theorem mem_hashRoots (hs : WellKeyed s) {chainUID : Bytes} {root : HashRoot} :
    root ∈ hashRoots s chainUID ↔
      Holds s root ∧ ∃ algo, chainUID ++ 0x7c :: algo = root.chainUid ++ 0x7c :: root.algo := by
  simp only [hashRoots, List.mem_filterMap, Prod.exists]
  constructor
  · rintro ⟨algo, v, hrow, hv⟩
    cases v <;> cases hv
    rw [mem_iterator, hashRoots_key] at hrow
    have hkeyed : keyHashRoot chainUID algo = keyHashRoot root.chainUid root.algo := hs _ _ hrow
    rw [hkeyed] at hrow
    refine ⟨hrow, algo, ?_⟩
    rwa [keyHashRoot_eq, keyHashRoot_eq, List.cons_inj_right] at hkeyed
  · rintro ⟨hrow, algo, heq⟩
    refine ⟨algo, .hashRoot root, ?_, rfl⟩
    rwa [mem_iterator, hashRoots_key, keyHashRoot_eq, heq, ← keyHashRoot_eq]

theorem hashRoots_nodup (hs : WellKeyed s) (chainUID : Bytes) : (hashRoots s chainUID).Nodup := by
  refine filterMap_iterator_nodup ?_
  intro algo v algo' v' root hrow hrow' hv hv'
  cases v <;> cases hv
  cases v' <;> cases hv'
  have hkey : keyHashRoot chainUID algo = keyHashRoot chainUID algo' := (hs _ _ hrow).trans (hs _ _ hrow').symm
  rwa [keyHashRoot, keyHashRoot, List.append_cancel_left_eq] at hkey

theorem visitsOwn_iff (hs : WellKeyed s) (chainUID : Bytes) :
    VisitsOwn s chainUID ↔ ∀ root, Holds s root → ∀ algo, ¬ SharesKey (chainUID, algo) (root.chainUid, root.algo) := by
  constructor
  · rintro ⟨-, hvisits⟩ root hroot algo hshares
    have hmem := (mem_hashRoots hs).mpr ⟨hroot, algo, append_sep_eq_iff.mpr (.inr hshares)⟩
    obtain ⟨-, rfl⟩ := (hvisits root).mp hmem
    rcases hshares with ⟨mid, h, -⟩ | ⟨mid, h, -⟩ <;> simpa using congrArg List.length h
  · intro hshares
    refine ⟨hashRoots_nodup hs chainUID, fun root => ?_⟩
    rw [mem_hashRoots hs]
    refine and_congr_right fun hroot => ⟨?_, ?_⟩
    · rintro ⟨algo, heq⟩
      have hsame := append_sep_inj_iff.mpr (hshares root hroot algo) heq
      exact (congrArg Prod.fst hsame).symm
    · rintro rfl
      exact ⟨root.algo, rfl⟩

/-- **Where keys are separate.**  Records other than roots never share a key; two roots do exactly if their
identifiers are joined to one string, and exactly then one overwrites the other, or is read for its chain. -/
theorem keys_separated_iff (hs : WellKeyed s) :
    (∀ id id' : RecordId, id.Named → id'.Named → ((id.key = id'.key → id = id') ↔ ¬ id.Shared id')) ∧
    (∀ (root : HashRoot) (chainUID algo : Bytes), (root.chainUid, root.algo) ≠ (chainUID, algo) →
      ((∀ s, getHashRoot (setHashRoot s root) chainUID algo = getHashRoot s chainUID algo) ↔
        ¬ SharesKey (root.chainUid, root.algo) (chainUID, algo))) ∧
    ∀ chainUID, (VisitsOwn s chainUID ↔
      ∀ root, Holds s root → ∀ algo, ¬ SharesKey (chainUID, algo) (root.chainUid, root.algo)) :=
  ⟨fun _ _ => key_inj_iff, fun _ _ _ => getHashRoot_setHashRoot_iff, visitsOwn_iff hs⟩

/-- The roots of two chains without a separator in their names. -/
theorem separate_roots_kept :
    let root : HashRoot := ⟨ascii "a", ascii "x", 0, [0xab], 1, 0, []⟩
    let other : HashRoot := ⟨ascii "b", ascii "y", 0, [0xcd], 1, 0, []⟩
    let s := setHashRoot (setHashRoot .empty root) other
    WellKeyed s ∧ VisitsOwn s (ascii "a") ∧
      ∀ s, getHashRoot (setHashRoot s root) (ascii "b") (ascii "y") = getHashRoot s (ascii "b") (ascii "y") := by
  intro root other s
  have hs : WellKeyed s := WellKeyed.set (wellKeyed_empty.set (v := .hashRoot root) rfl) rfl
  obtain ⟨-, hset, hvisits⟩ := keys_separated_iff hs
  refine ⟨hs, (hvisits (ascii "a")).mpr ?_, (hset root _ _ (by decide)).mpr ?_⟩
  · intro r hr algo
    refine not_ambiguous_of_not_mem (show (124 : UInt8) ∉ ascii "a" by decide) ?_
    simp only [Holds, s, setHashRoot, get_set] at hr
    split_ifs at hr <;> cases hr <;> decide
  · exact not_ambiguous_of_not_mem (by decide) (by decide)

/-- The roots of `a|b` by `c` and of `a` by `b|c` have one key: the second is overwritten, and the first read for the
chain `a`. -/
theorem joined_roots_share_key :
    let root : HashRoot := ⟨ascii "a|b", ascii "c", 0, [0xab], 1, 0, []⟩
    let other : HashRoot := ⟨ascii "a", ascii "b|c", 0, [0xcd], 1, 0, []⟩
    let s := setHashRoot .empty other
    (RecordId.hashRoot root.chainUid root.algo).key = (RecordId.hashRoot other.chainUid other.algo).key ∧
      getHashRoot s (ascii "a") (ascii "b|c") = .ok other ∧
      getHashRoot (setHashRoot s root) (ascii "a") (ascii "b|c") = .ok root ∧
      hashRoots (setHashRoot s root) (ascii "a") = [root] := by
  decide

end Hashmerchant
