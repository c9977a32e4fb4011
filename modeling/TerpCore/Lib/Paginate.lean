/-
  Pages of the rows of a store, as the queries of the Cosmos SDK return them.
-/
import TerpCore.Lib.KVStore

namespace Lib

open List

variable {V : Type}

def defaultLimit : ℕ := 100

/-- `query.Paginate`, from a key or the first row on: the rows of the page and the key of the next, empty on the last.
-/
def paginate (rows : List (Bytes × V)) (key : Bytes) (limit : ℕ) : List (Bytes × V) × Bytes :=
  let limit := if limit = 0 then defaultLimit else limit
  let rows := if key = [] then rows else rows.filter fun r => !Bytes.lt r.1 key
  (rows.take limit, ((rows.drop limit).head?.map Prod.fst).getD [])

/-- The pages from a key on, of `limits` rows each; `none` if there are more than `fuel`. -/
def allPages (rows : List (Bytes × V)) (limits : ℕ → ℕ) : (fuel page : ℕ) → Bytes → Option (List (Bytes × V))
  | 0, _, _ => none
  | fuel + 1, page, key =>
    let result := paginate rows key (limits page)
    if result.2 = [] then some result.1
    else (allPages rows limits fuel (page + 1) result.2).map (result.1 ++ ·)

/-- Rows in strictly increasing order of their keys. -/
abbrev Ascending (rows : List (Bytes × V)) : Prop := rows.Pairwise fun a b => compare a.1 b.1 = .lt

variable {r : Bytes × V} {rows : List (Bytes × V)}

theorem filter_not_lt_of_ascending {before after : List (Bytes × V)} (h : Ascending (before ++ r :: after)) :
    (before ++ r :: after).filter (fun r' => !Bytes.lt r'.1 r.1) = r :: after := by
  obtain ⟨-, hafter, hcross⟩ := pairwise_append.mp h
  rw [filter_append, filter_eq_nil_iff.mpr, nil_append, filter_eq_self.mpr]
  · intro r' hr'
    rcases mem_cons.mp hr' with rfl | hr'
    · rw [Bytes.lt, Std.ReflOrd.compare_self]
      rfl
    · have hswap : compare r'.1 r.1 = (compare r.1 r'.1).swap := Std.OrientedOrd.eq_swap
      rw [Bytes.lt, hswap, rel_of_pairwise_cons hafter hr']
      rfl
  · intro r' hr'
    rw [Bytes.lt, hcross r' hr' r mem_cons_self]
    simp

theorem key_ne_nil_of_ascending {r' : Bytes × V} (h : Ascending (r :: rows)) (hr' : r' ∈ rows) : r'.1 ≠ [] := by
  intro hnil
  have hlt : compare r.1 r'.1 = .lt := rel_of_pairwise_cons h hr'
  have hnot := Bytes.not_lt_nil r.1
  simp [Bytes.lt, ← hnil, hlt] at hnot

theorem take_append_drop_head {n : ℕ} {rest : List (Bytes × V)}
    (h : rows.drop n = r :: rest) : rows = rows.take n ++ r :: rest := by
  rw [← h, take_append_drop]

theorem allPages_from (hrows : Ascending rows) (limits : ℕ → ℕ) :
    ∀ (fuel page : ℕ) (key : Bytes) (before rest : List (Bytes × V)), rows = before ++ rest →
      rest.length < fuel → (if key = [] then rows else rows.filter fun r => !Bytes.lt r.1 key) = rest →
      allPages rows limits fuel page key = some rest
  | 0, _, _, _, _, _, hfuel, _ => absurd hfuel (Nat.not_lt_zero _)
  | fuel + 1, page, key, before, rest, hsplit, hfuel, hkey => by
    generalize hn : (if limits page = 0 then defaultLimit else limits page) = n
    have hpos : 0 < n := by
      rw [← hn]
      split
      · decide
      · omega
    have hpage : paginate rows key (limits page) = (rest.take n, ((rest.drop n).head?.map Prod.fst).getD []) := by
      simp only [paginate, hkey, hn]
    rw [allPages, hpage]
    cases hdrop : rest.drop n with
    | nil =>
      have hall : rest.take n = rest := by
        have happend := take_append_drop n rest
        rwa [hdrop, append_nil] at happend
      simp [hall]
    | cons r after =>
      have hrest := take_append_drop_head hdrop
      -- the next page does not start with the first row
      obtain ⟨first, others, hfirst⟩ : ∃ first others, rest.take n = first :: others := by
        refine exists_cons_of_ne_nil fun hnil => ?_
        rw [take_eq_nil_iff] at hnil
        rcases hnil with hzero | hnil
        · omega
        · rw [hnil] at hdrop
          simp at hdrop
      have hasc : Ascending (first :: (others ++ r :: after)) := by
        rw [hsplit, hrest, hfirst] at hrows
        exact (pairwise_append.mp hrows).2.1
      have hne : r.1 ≠ [] := key_ne_nil_of_ascending hasc (by simp)
      have hshape : rows = (before ++ rest.take n) ++ r :: after := by
        rw [hsplit, append_assoc, ← hrest]
      have hlen : (r :: after).length < fuel := by
        have hdropLen := congrArg List.length hdrop
        rw [length_drop, length_cons] at hdropLen
        rw [length_cons]
        omega
      have hnext := allPages_from hrows limits fuel (page + 1) r.1 _ (r :: after) hshape hlen (by
        rw [if_neg hne]
        have hfilter := filter_not_lt_of_ascending (hshape ▸ hrows)
        rwa [← hshape] at hfilter)
      simp only [List.head?_cons, Option.map_some, Option.getD_some, if_neg hne, hnext]
      exact congrArg some hrest.symm

theorem allPages_eq (hrows : Ascending rows) (limits : ℕ → ℕ) {fuel : ℕ}
    (hfuel : rows.length < fuel) : allPages rows limits fuel 0 [] = some rows :=
  allPages_from hrows limits fuel 0 [] [] rows rfl hfuel (if_pos rfl)

end Lib
