/-
  A key/value store with byte-string keys, as a module of a chain application sees its substore.
-/
import Mathlib.Algebra.BigOperators.Group.List.Basic
import Mathlib.Data.List.Sort
import Mathlib.Tactic.Ring
import TerpCore.Lib.Bytes

namespace Lib

open List

/-- A store of rows of type `V`, ordered by key. -/
structure KVStore (V : Type) where
  rows : Std.ExtTreeMap Bytes V compare

namespace KVStore

variable {V : Type}

def empty : KVStore V := ⟨∅⟩

def get (s : KVStore V) (k : Bytes) : Option V := s.rows[k]?

def has (s : KVStore V) (k : Bytes) : Bool := (s.get k).isSome

def set (s : KVStore V) (k : Bytes) (v : V) : KVStore V := ⟨s.rows.insert k v⟩

def delete (s : KVStore V) (k : Bytes) : KVStore V := ⟨s.rows.erase k⟩

/-- `prefix.NewStore(s, p).Iterator(nil, nil)`. -/
def iterator (s : KVStore V) (p : Bytes) : List (Bytes × V) :=
  s.rows.toList.filterMap fun e => (e.1.dropPrefix? p).map fun k => (k, e.2)

/-- `prefix.NewStore(s, p).Iterator(nil, end)`: the keys strictly below `hi`. -/
def iteratorBelow (s : KVStore V) (p hi : Bytes) : List (Bytes × V) :=
  (s.iterator p).filter fun e => Bytes.lt e.1 hi

variable {s : KVStore V} {k p : Bytes}

@[ext] theorem ext {t : KVStore V} (h : ∀ k, s.get k = t.get k) : s = t := by
  obtain ⟨m⟩ := s
  congr
  exact Std.ExtTreeMap.ext_getElem? h

/-! ## Reading after a write -/

@[simp] theorem get_empty (k : Bytes) : (empty : KVStore V).get k = none := by
  simp [get, empty]

theorem get_set (s : KVStore V) (k k' : Bytes) (v : V) : (s.set k v).get k' = if k = k' then some v else s.get k' := by
  simp [get, set, Std.ExtTreeMap.getElem?_insert]

theorem get_delete (s : KVStore V) (k k' : Bytes) : (s.delete k).get k' = if k = k' then none else s.get k' := by
  simp [get, delete, Std.ExtTreeMap.getElem?_erase]

@[simp] theorem get_set_self (s : KVStore V) (k : Bytes) (v : V) : (s.set k v).get k = some v := by
  simp [get_set]

@[simp] theorem get_delete_self (s : KVStore V) (k : Bytes) : (s.delete k).get k = none := by
  simp [get_delete]

theorem get_set_of_ne (s : KVStore V) {k' : Bytes} (v : V) (h : k ≠ k') : (s.set k v).get k' = s.get k' := by
  simp [get_set, h]

theorem get_delete_of_ne (s : KVStore V) {k' : Bytes} (h : k ≠ k') : (s.delete k).get k' = s.get k' := by
  simp [get_delete, h]

/-! ## Writing many rows -/

/-- The rows of a list, written one after the other. -/
def setRows (s : KVStore V) (rows : List (Bytes × V)) : KVStore V :=
  rows.foldl (fun s r => s.set r.1 r.2) s

@[simp] theorem setRows_nil (s : KVStore V) : s.setRows [] = s := rfl

@[simp] theorem setRows_cons (s : KVStore V) (r : Bytes × V) (rows : List (Bytes × V)) :
    s.setRows (r :: rows) = (s.set r.1 r.2).setRows rows := rfl

theorem setRows_append (s : KVStore V) (rows rows' : List (Bytes × V)) :
    s.setRows (rows ++ rows') = (s.setRows rows).setRows rows' :=
  foldl_append ..

theorem setRows_map {α : Type} (s : KVStore V) (row : α → Bytes × V) (l : List α) :
    s.setRows (l.map row) = l.foldl (fun s a => s.set (row a).1 (row a).2) s :=
  foldl_map

theorem get_setRows_of_ne : ∀ {rows : List (Bytes × V)} {s : KVStore V},
    (∀ r ∈ rows, r.1 ≠ k) → (s.setRows rows).get k = s.get k
  | [], _, _ => rfl
  | r :: rows, s, h => by
    rw [setRows_cons, get_setRows_of_ne fun r hr => h r (mem_cons_of_mem _ hr)]
    exact get_set_of_ne s _ (h r (by simp))

theorem get_setRows_of_mem {k : Bytes} {v : V} : ∀ {rows : List (Bytes × V)} {s : KVStore V},
    (∀ r ∈ rows, r.1 = k → r.2 = v) → (k, v) ∈ rows → (s.setRows rows).get k = some v
  | r :: rows, s, h, hmem => by
    by_cases hlater : ∃ r' ∈ rows, r'.1 = k
    · obtain ⟨r', hr', rfl⟩ := hlater
      obtain rfl : r'.2 = v := h r' (mem_cons_of_mem _ hr') rfl
      rw [setRows_cons]
      exact get_setRows_of_mem (fun r hr => h r (mem_cons_of_mem _ hr)) hr'
    · have hnone : ∀ r' ∈ rows, r'.1 ≠ k := fun r' hr' heq => hlater ⟨r', hr', heq⟩
      rcases mem_cons.mp hmem with rfl | hmem
      · rw [setRows_cons, get_setRows_of_ne hnone, get_set_self]
      · exact absurd rfl (hnone _ hmem)

theorem mem_of_get_setRows {v : V} : ∀ {rows : List (Bytes × V)} {s : KVStore V},
    (s.setRows rows).get k = some v → (k, v) ∈ rows ∨ s.get k = some v
  | [], _, h => .inr h
  | r :: rows, s, h => by
    rcases mem_of_get_setRows (s := s.set r.1 r.2) h with hmem | hget
    · exact .inl (mem_cons_of_mem _ hmem)
    · rw [get_set] at hget
      split at hget
      · next hkey => exact .inl (by rw [← hkey, ← Option.some.inj hget]; exact mem_cons_self)
      · exact .inr hget

theorem setRows_of_rows {rows : List (Bytes × V)} (h : ∀ k v, (k, v) ∈ rows ↔ s.get k = some v) :
    empty.setRows rows = s := by
  ext k v
  constructor
  · intro hget
    rcases mem_of_get_setRows hget with hmem | hnone
    · exact (h k v).mp hmem
    · cases hnone
  · intro hget
    refine get_setRows_of_mem (fun r hr hkey => ?_) ((h k v).mpr hget)
    rw [← hkey, (h r.1 r.2).mp hr] at hget
    exact Option.some.inj hget

theorem get_foldl_delete {key : Bytes} : ∀ (keys : List Bytes) (s : KVStore V),
    (keys.foldl delete s).get key = if keys.contains key then none else s.get key
  | [], s => by simp
  | k :: keys, s => by
    rw [foldl_cons, get_foldl_delete keys, get_delete]
    by_cases hkey : key = k
    · simp [hkey]
    · simp [hkey, Ne.symm hkey]

/-! ## Iteration -/

theorem dropPrefix?_eq_some {r : Bytes} : k.dropPrefix? p = some r ↔ k = p ++ r := by
  rw [List.dropPrefix?_eq_some_iff]
  constructor
  · rintro ⟨p', rfl, hp⟩
    rw [eq_of_beq hp]
  · rintro rfl
    exact ⟨p, rfl, by simp⟩

@[simp] theorem mem_iterator {v : V} : (k, v) ∈ s.iterator p ↔ s.get (p ++ k) = some v := by
  simp only [iterator, mem_filterMap, Option.map_eq_some_iff, dropPrefix?_eq_some]
  constructor
  · rintro ⟨⟨k', v'⟩, hmem, r, hk, hkv⟩
    obtain ⟨rfl, rfl⟩ := Prod.mk.inj hkv
    obtain rfl : k' = p ++ r := hk
    exact Std.ExtTreeMap.mem_toList_iff_getElem?_eq_some.mp hmem
  · intro h
    exact ⟨(p ++ k, v), Std.ExtTreeMap.mem_toList_iff_getElem?_eq_some.mpr h, k, rfl, rfl⟩

theorem get_of_iterator_isEmpty (h : (s.iterator p).isEmpty = true) (key : Bytes) : s.get (p ++ key) = none := by
  cases hget : s.get (p ++ key) with
  | none => rfl
  | some v =>
    have hmem := mem_iterator.mpr hget
    simp [isEmpty_iff.mp h] at hmem

theorem compare_append_left (p a b : Bytes) : compare (p ++ a) (p ++ b) = compare a b := by
  induction p with
  | nil => rfl
  | cons x p ih =>
    simpa using ih

theorem iterator_sorted (s : KVStore V) (p : Bytes) : (s.iterator p).Pairwise fun a b => compare a.1 b.1 = .lt := by
  refine List.Pairwise.filterMap _ ?_ s.rows.ordered_keys_toList
  rintro ⟨k, v⟩ ⟨k', v'⟩ hlt e he e' he'
  simp only [Option.map_eq_some_iff, dropPrefix?_eq_some] at he he'
  obtain ⟨r, hk, rfl⟩ := he
  obtain ⟨r', hk', rfl⟩ := he'
  rwa [hk, hk', compare_append_left] at hlt

theorem iterator_nodup (s : KVStore V) (p : Bytes) : (s.iterator p).Nodup := by
  refine (s.iterator_sorted p).imp ?_
  rintro a b hlt rfl
  simp [Std.ReflOrd.compare_self] at hlt

theorem keys_nodup (s : KVStore V) (p : Bytes) : ((s.iterator p).map Prod.fst).Nodup := by
  refine pairwise_map.mpr ((s.iterator_sorted p).imp ?_)
  rintro a b hlt heq
  simp [heq, Std.ReflOrd.compare_self] at hlt

theorem filterMap_iterator_nodup {α : Type} {f : Bytes × V → Option α}
    (h : ∀ k v k' v' a, s.get (p ++ k) = some v → s.get (p ++ k') = some v' →
      f (k, v) = some a → f (k', v') = some a → k = k') :
    ((s.iterator p).filterMap f).Nodup := by
  refine List.Pairwise.filterMap f ?_ (List.Pairwise.and_mem.mp (s.iterator_nodup p))
  rintro ⟨k, v⟩ ⟨k', v'⟩ ⟨hrow, hrow', hne⟩ a ha a' ha' rfl
  rw [mem_iterator] at hrow hrow'
  obtain rfl := h k v k' v' a hrow hrow' ha ha'
  exact hne (by rw [Option.some.inj (hrow.symm.trans hrow')])

theorem iterator_congr {t : KVStore V} (h : ∀ k, s.get (p ++ k) = t.get (p ++ k)) : s.iterator p = t.iterator p := by
  have hperm : (s.iterator p).Perm (t.iterator p) := by
    rw [perm_ext_iff_of_nodup (s.iterator_nodup p) (t.iterator_nodup p)]
    rintro ⟨k, v⟩
    rw [mem_iterator, mem_iterator, h]
  refine hperm.eq_of_pairwise ?_ (s.iterator_sorted p) (t.iterator_sorted p)
  rintro a b - - hab hba
  have hswap : compare b.1 a.1 = (compare a.1 b.1).swap := Std.OrientedOrd.eq_swap
  simp [hab, hba] at hswap

theorem iterator_set_of_ne {v : V} (h : ∀ r, k ≠ p ++ r) : (s.set k v).iterator p = s.iterator p :=
  iterator_congr fun r => get_set_of_ne s v (h r)

/-! ## Sums over the rows of a prefix -/

section sums

variable (s : KVStore V) (p k : Bytes) (f : Bytes × V → ℤ)

theorem sum_iterator_eq : ((s.iterator p).map f).sum = ((s.get (p ++ k)).elim 0 fun v => f (k, v)) +
      (((s.iterator p).filter fun e => e.1 ≠ k).map f).sum := by
  cases hget : s.get (p ++ k) with
  | none =>
    have hall : ∀ e ∈ s.iterator p, e.1 ≠ k := by
      rintro ⟨k', v⟩ he rfl
      simp [mem_iterator, hget] at he
    rw [filter_eq_self.mpr fun e he => decide_eq_true (hall e he)]
    exact (zero_add _).symm
  | some v =>
    have hperm : (s.iterator p).Perm ((k, v) :: (s.iterator p).filter fun e => e.1 ≠ k) := by
      have hnodup : ((k, v) :: (s.iterator p).filter fun e => e.1 ≠ k).Nodup :=
        nodup_cons.mpr ⟨by simp, (s.iterator_nodup p).filter _⟩
      rw [perm_ext_iff_of_nodup (s.iterator_nodup p) hnodup]
      rintro ⟨k', v'⟩
      by_cases hk : k' = k
      · subst hk
        simp [hget, eq_comm]
      · simp [hk]
    rw [(hperm.map f).sum_eq]
    rfl

theorem sum_iterator_set (v : V) : (((s.set (p ++ k) v).iterator p).map f).sum =
    ((s.iterator p).map f).sum - ((s.get (p ++ k)).elim 0 fun v => f (k, v)) + f (k, v) := by
  have hrest : (((s.set (p ++ k) v).iterator p).filter fun e => e.1 ≠ k).Perm
      ((s.iterator p).filter fun e => e.1 ≠ k) := by
    rw [perm_ext_iff_of_nodup ((iterator_nodup _ p).filter _) ((s.iterator_nodup p).filter _)]
    rintro ⟨k', v'⟩
    by_cases hk : k' = k
    · simp [hk]
    · simp [get_set, Ne.symm hk]
  rw [sum_iterator_eq (s.set (p ++ k) v) p k f, sum_iterator_eq s p k f, (hrest.map f).sum_eq, get_set_self]
  change f (k, v) + _ = _
  ring

end sums

end KVStore

end Lib
