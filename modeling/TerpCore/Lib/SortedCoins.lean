/-
  Lists of coins in the order of their denominations, and what the Cosmos SDK reads off them with a binary
  search.  An amount of an invalid denomination panics (`none`).
-/
import TerpCore.Lib.Coins
import TerpCore.Lib.SliceSort

namespace Lib

open List Option

namespace Coins

/-! ## Order -/

/-- One coin of each denomination, in increasing order. -/
def Ordered (coins : List Coin) : Prop := coins.Pairwise fun a b => compare a.denom b.denom = .lt

def sort (sliceSort : SliceSort) (coins : List Coin) : List Coin :=
  sliceSort.sort (fun a b => Bytes.lt a.denom b.denom) coins

theorem sort_perm (sliceSort : SliceSort) (coins : List Coin) : (sort sliceSort coins).Perm coins :=
  sliceSort.perm _ _

variable {coins : List Coin} {c : Coin}

theorem mem_sort {sliceSort : SliceSort} : c ∈ sort sliceSort coins ↔ c ∈ coins :=
  (sort_perm sliceSort coins).mem_iff

theorem sort_ordered (sliceSort : SliceSort) (h : (coins.map Coin.denom).Nodup) : Ordered (sort sliceSort coins) := by
  have hsorted := sliceSort.sorted (compareOn Coin.denom) coins
  have hdistinct : ((sort sliceSort coins).map Coin.denom).Nodup :=
    ((sort_perm sliceSort coins).map Coin.denom).nodup_iff.mpr h
  rw [List.Nodup, pairwise_map] at hdistinct
  refine (hsorted.and hdistinct).imp ?_
  rintro a b ⟨hle, hne⟩
  rw [compareOn] at hle
  cases hcmp : compare a.denom b.denom with
  | lt => rfl
  | eq => exact absurd (Std.LawfulEqOrd.eq_of_compare hcmp) hne
  | gt =>
    simp [hcmp] at hle

theorem ordered_of_validCoins : ∀ {coins : List Coin}, validCoins coins = true →
    Ordered coins ∧ ∀ c ∈ coins, validDenom c.denom = true ∧ 0 < c.amount
  | [], _ => ⟨.nil, by simp⟩
  | [c], h => by
    rw [validCoins] at h
    exact ⟨pairwise_singleton .., by simpa [Coin.isPositive] using h⟩
  | c :: c' :: cs, h => by
    simp only [validCoins, Bool.and_eq_true] at h
    obtain ⟨⟨⟨hdenom, hpos⟩, hlt⟩, hrest⟩ := h
    obtain ⟨hordered, hvalid⟩ := ordered_of_validCoins hrest
    have hlt : compare c.denom c'.denom = .lt := Ordering.isLT_iff_eq_lt.mp hlt
    refine ⟨hordered.cons (forall_mem_cons.mpr ⟨hlt, fun c'' hc'' => ?_⟩),
      forall_mem_cons.mpr ⟨⟨hdenom, of_decide_eq_true hpos⟩, hvalid⟩⟩
    exact Std.TransCmp.lt_trans hlt ((pairwise_cons.mp hordered).1 c'' hc'')

theorem Ordered.nodup (h : Ordered coins) : (coins.map Coin.denom).Nodup := by
  rw [List.Nodup, pairwise_map]
  refine h.imp fun {a b} hlt heq => ?_
  simp [heq, Std.ReflOrd.compare_self] at hlt

/-! ## Search -/

/-- The binary search for a denomination; the fuel is the number of coins. -/
def search : ℕ → List Coin → Bytes → Option Coin
  | 0, _, _ => none
  | fuel + 1, coins, denom =>
    if coins.length = 1 then
      coins.head?.filter fun coin => coin.denom = denom
    else
      match coins[coins.length / 2]? with
      | none => none
      | some coin =>
        if Bytes.lt denom coin.denom then search fuel (coins.take (coins.length / 2)) denom
        else if denom = coin.denom then some coin
        else search fuel (coins.drop (coins.length / 2 + 1)) denom

def find (coins : List Coin) (denom : Bytes) : Option Coin := search coins.length coins denom

def amountOfDenom (coins : List Coin) (denom : Bytes) : Option ℤ :=
  if validDenom denom then some (((find coins denom).map Coin.amount).getD 0) else none

section middle

variable {left right : List Coin} {mid c : Coin} {denom : Bytes}

variable (h : Ordered (left ++ mid :: right))

include h

theorem Ordered.left_lt (hc : c ∈ left) :
    compare c.denom mid.denom = .lt := (pairwise_append.mp h).2.2 c hc mid mem_cons_self

theorem Ordered.lt_right (hc : c ∈ right) :
    compare mid.denom c.denom = .lt := (pairwise_cons.mp (pairwise_append.mp h).2.1).1 c hc

theorem Ordered.mem_of_lt (hlt : compare denom mid.denom = .lt) :
    c ∈ left ++ mid :: right ∧ c.denom = denom ↔ c ∈ left ∧ c.denom = denom := by
  rw [mem_append, mem_cons]
  refine ⟨?_, And.imp_left .inl⟩
  rintro ⟨hc | rfl | hc, rfl⟩
  · exact ⟨hc, rfl⟩
  · simp [Std.ReflOrd.compare_self] at hlt
  · rw [Std.OrientedOrd.eq_swap, h.lt_right hc] at hlt
    cases hlt

theorem Ordered.mem_of_gt (hgt : compare denom mid.denom = .gt) :
    c ∈ left ++ mid :: right ∧ c.denom = denom ↔ c ∈ right ∧ c.denom = denom := by
  rw [mem_append, mem_cons]
  refine ⟨?_, And.imp_left fun hc => .inr (.inr hc)⟩
  rintro ⟨hc | rfl | hc, rfl⟩
  · simp [h.left_lt hc] at hgt
  · simp [Std.ReflOrd.compare_self] at hgt
  · exact ⟨hc, rfl⟩

theorem Ordered.mem_mid : c ∈ left ++ mid :: right ∧ c.denom = mid.denom ↔ c = mid := by
  rw [mem_append, mem_cons]
  refine ⟨?_, ?_⟩
  · rintro ⟨hc | rfl | hc, hdenom⟩
    · have hlt := h.left_lt hc
      simp [hdenom, Std.ReflOrd.compare_self] at hlt
    · rfl
    · have hlt := h.lt_right hc
      simp [hdenom, Std.ReflOrd.compare_self] at hlt
  · rintro rfl
    exact ⟨.inr (.inl rfl), rfl⟩

end middle

theorem search_eq_some {denom : Bytes} : ∀ {fuel : ℕ} {coins : List Coin}, Ordered coins →
    coins.length ≤ fuel → (search fuel coins denom = some c ↔ c ∈ coins ∧ c.denom = denom)
  | 0, coins, _, hfuel => by
    obtain rfl := length_eq_zero_iff.mp (Nat.le_zero.mp hfuel)
    simp [search]
  | fuel + 1, coins, hcoins, hfuel => by
    rw [search]
    split_ifs with hone
    · obtain ⟨coin, rfl⟩ := length_eq_one_iff.mp hone
      rw [List.head?_cons, filter_eq_some_iff, some_inj, mem_singleton, decide_eq_true_eq]
      exact and_congr_left fun _ => eq_comm
    · rcases hmid : coins[coins.length / 2]? with _ | coin
      · rw [List.getElem?_eq_none_iff] at hmid
        obtain rfl : coins = [] := length_eq_zero_iff.mp (by omega)
        simp
      · obtain ⟨hlt, hcoin⟩ := List.getElem?_eq_some_iff.mp hmid
        -- the coins before the middle one, and those after it
        have hsplit : coins.take (coins.length / 2) ++ coin :: coins.drop (coins.length / 2 + 1) = coins := by
          rw [← hcoin, cons_getElem_drop_succ, take_append_drop]
        have hordered := hsplit.symm ▸ hcoins
        have hleftLen : (coins.take (coins.length / 2)).length ≤ fuel := by
          rw [length_take]
          omega
        have hrightLen : (coins.drop (coins.length / 2 + 1)).length ≤ fuel := by
          rw [length_drop]
          omega
        dsimp only
        conv_rhs => rw [← hsplit]
        split_ifs with hless heq
        · rw [hordered.mem_of_lt (Ordering.isLT_iff_eq_lt.mp hless)]
          exact search_eq_some (hcoins.sublist (take_sublist _ _)) hleftLen
        · rw [heq, hordered.mem_mid, some_inj, eq_comm]
        · have hgt : compare denom coin.denom = .gt := by
            cases hcmp : compare denom coin.denom with
            | lt => exact absurd (Ordering.isLT_iff_eq_lt.mpr hcmp) hless
            | eq => exact absurd (Std.LawfulEqOrd.eq_of_compare hcmp) heq
            | gt => rfl
          rw [hordered.mem_of_gt hgt]
          exact search_eq_some (hcoins.sublist (drop_sublist _ _)) hrightLen

theorem find_eq_some (h : Ordered coins) {denom : Bytes} :
    find coins denom = some c ↔ c ∈ coins ∧ c.denom = denom := search_eq_some h le_rfl

/-- `Coins.Add` of one coin to coins in order, of which none is zero; an amount beyond the range panics. -/
def add : List Coin → Coin → Option (List Coin)
  | [], c => some (if c.amount = 0 then [] else [c])
  | a :: coins, c =>
    if a.denom = c.denom then do
      let amount ← SdkInt.add a.amount c.amount
      some (if amount = 0 then coins else ⟨a.denom, amount⟩ :: coins)
    else if Bytes.lt c.denom a.denom then some (if c.amount = 0 then a :: coins else c :: a :: coins)
    else (add coins c).map (a :: ·)

/-- A coin is added to the one of its denomination, or put before the first one above it. -/
theorem add_cons_cases {a : Coin} {coins' : List Coin} (h : add (a :: coins) c = some coins') : (a.denom = c.denom ∧
      coins' = if a.amount + c.amount = 0 then coins else ⟨a.denom, a.amount + c.amount⟩ :: coins) ∨
    (compare c.denom a.denom = .lt ∧ coins' = if c.amount = 0 then a :: coins else c :: a :: coins) ∨
    (compare a.denom c.denom = .lt ∧ ∃ rest, add coins c = some rest ∧ coins' = a :: rest) := by
  rw [add] at h
  by_cases hdenom : a.denom = c.denom
  · rw [if_pos hdenom, bind_eq_bind, bind_eq_some_iff] at h
    obtain ⟨amount, hamount, h⟩ := h
    unfold SdkInt.add at hamount
    split_ifs at hamount
    cases hamount
    exact .inl ⟨hdenom, (Option.some.inj h).symm⟩
  · rw [if_neg hdenom, Bytes.lt] at h
    cases hcmp : compare c.denom a.denom with
    | lt =>
      rw [hcmp] at h
      exact .inr (.inl ⟨rfl, (Option.some.inj h).symm⟩)
    | eq => exact absurd (Std.LawfulEqOrd.eq_of_compare hcmp).symm hdenom
    | gt =>
      rw [hcmp] at h
      obtain ⟨rest, hrest, rfl⟩ := map_eq_some_iff.mp h
      refine .inr (.inr ⟨?_, rest, hrest, rfl⟩)
      rw [Std.OrientedOrd.eq_swap, hcmp]
      rfl

theorem amountOf_add (denom : Bytes) : ∀ {coins coins' : List Coin}, add coins c = some coins' →
    amountOf coins' denom = amountOf coins denom + c.of denom
  | [], coins', h => by
    rw [← Option.some.inj h, amountOf_nil, zero_add]
    split_ifs with hzero
    · rw [amountOf_nil, Coin.of, hzero, ite_self]
    · rw [amountOf_cons, amountOf_nil, add_zero]
  | a :: coins, coins', h => by
    rw [amountOf_cons]
    rcases add_cons_cases h with ⟨hdenom, rfl⟩ | ⟨-, rfl⟩ | ⟨-, rest, hrest, rfl⟩
    · have hof : a.of denom + c.of denom = if c.denom = denom then a.amount + c.amount else 0 := by
        simp only [Coin.of, hdenom]
        split_ifs <;> rfl
      rw [add_right_comm, hof]
      split_ifs with hzero hc hc
      · rw [hzero, zero_add]
      · rw [zero_add]
      · rw [amountOf_cons, Coin.of, if_pos (hdenom.trans hc)]
      · rw [amountOf_cons, Coin.of, if_neg (hdenom ▸ hc)]
    · split_ifs with hzero
      · rw [amountOf_cons, Coin.of, Coin.of, hzero, ite_self, add_zero]
      · rw [amountOf_cons, amountOf_cons, add_comm]
    · rw [amountOf_cons, amountOf_add denom hrest, add_assoc]

theorem ordered_add : ∀ {coins coins' : List Coin}, Ordered coins → add coins c = some coins' →
    Ordered coins' ∧ ∀ x ∈ coins', x.denom = c.denom ∨ x.denom ∈ coins.map Coin.denom
  | [], coins', _, h => by
    rw [← Option.some.inj h]
    split_ifs with hzero
    · exact ⟨.nil, by simp⟩
    · exact ⟨pairwise_singleton .., by simp⟩
  | a :: coins, coins', hordered, h => by
    obtain ⟨hhead, htail⟩ := pairwise_cons.mp hordered
    rcases add_cons_cases h with ⟨hdenom, rfl⟩ | ⟨hlt, rfl⟩ | ⟨hlt, rest, hrest, rfl⟩
    · split_ifs with hzero
      · refine ⟨htail, fun x hx => .inr ?_⟩
        exact mem_cons_of_mem _ (mem_map_of_mem hx)
      · refine ⟨pairwise_cons.mpr ⟨hhead, htail⟩, fun x hx => .inr ?_⟩
        rcases mem_cons.mp hx with rfl | hx
        · exact mem_cons_self
        · exact mem_cons_of_mem _ (mem_map_of_mem hx)
    · split_ifs with hzero
      · exact ⟨hordered, fun x hx => .inr (mem_map_of_mem hx)⟩
      · refine ⟨pairwise_cons.mpr ⟨forall_mem_cons.mpr ⟨hlt, fun x hx => ?_⟩, hordered⟩, fun x hx => ?_⟩
        · exact Std.TransCmp.lt_trans hlt (hhead x hx)
        · rcases mem_cons.mp hx with rfl | hx
          · exact .inl rfl
          · exact .inr (mem_map_of_mem hx)
    · obtain ⟨hrestOrdered, hdenoms⟩ := ordered_add htail hrest
      refine ⟨pairwise_cons.mpr ⟨fun x hx => ?_, hrestOrdered⟩, fun x hx => ?_⟩
      · rcases hdenoms x hx with heq | hmem
        · rw [heq]
          exact hlt
        · obtain ⟨y, hy, hdenom⟩ := mem_map.mp hmem
          rw [← hdenom]
          exact hhead y hy
      · rcases mem_cons.mp hx with rfl | hx
        · exact .inr mem_cons_self
        · exact (hdenoms x hx).imp_right (mem_cons_of_mem _)

/-! ## Comparisons -/

/-- The denominations of the first coins all have an amount among the second. -/
def allHaveAmount (coinsB : List Coin) : List Coin → Option Bool
  | [] => some true
  | c :: coins => do
    let amount ← amountOfDenom coinsB c.denom
    if amount = 0 then some false else allHaveAmount coinsB coins

def denomsSubsetOf (coins coinsB : List Coin) : Option Bool :=
  if coinsB.length < coins.length then some false else allHaveAmount coinsB coins

/-- Some coin reaches the amount of its denomination. -/
def someReaches (coinsB : List Coin) : List Coin → Option Bool
  | [] => some false
  | c :: coins => do
    let amount ← amountOfDenom coinsB c.denom
    if amount ≤ c.amount ∧ amount ≠ 0 then some true else someReaches coinsB coins

def isAnyGTE (coins coinsB : List Coin) : Option Bool :=
  if coinsB.length = 0 then some false else someReaches coinsB coins

section comparisons

variable {coinsB : List Coin} (hordered : Ordered coinsB)
  (hvalid : ∀ r ∈ coinsB, validDenom r.denom = true ∧ r.amount ≠ 0)
include hordered hvalid

theorem amountOfDenom_eq {r : Coin} (hr : r ∈ coinsB) : amountOfDenom coinsB r.denom = some r.amount := by
  rw [amountOfDenom, if_pos (hvalid r hr).1, (find_eq_some hordered).mpr ⟨hr, rfl⟩]
  rfl

omit hvalid in
theorem amountOfDenom_of_not_mem {denom : Bytes} (h : denom ∉ coinsB.map Coin.denom) {amount : ℤ}
    (hamount : amountOfDenom coinsB denom = some amount) : amount = 0 := by
  have hnone : find coinsB denom = none := by
    rw [eq_none_iff_forall_ne_some]
    intro c hc
    obtain ⟨hmem, hdenom⟩ := (find_eq_some hordered).mp hc
    exact h (mem_map.mpr ⟨c, hmem, hdenom⟩)
  unfold amountOfDenom at hamount
  split_ifs at hamount
  rw [hnone] at hamount
  exact (Option.some.inj hamount).symm

theorem allHaveAmount_iff (coins : List Coin) :
    allHaveAmount coinsB coins = some true ↔ ∀ c ∈ coins, c.denom ∈ coinsB.map Coin.denom := by
  induction coins with
  | nil => simp [allHaveAmount]
  | cons c coins ih =>
    rw [forall_mem_cons]
    by_cases hc : c.denom ∈ coinsB.map Coin.denom
    · obtain ⟨r, hr, hdenom⟩ := mem_map.mp hc
      rw [allHaveAmount, ← hdenom, amountOfDenom_eq hordered hvalid hr, bind_eq_bind, bind_some,
        if_neg (hvalid r hr).2, ih, hdenom]
      exact (and_iff_right hc).symm
    · refine ⟨fun h => ?_, fun h => absurd h.1 hc⟩
      rw [allHaveAmount, bind_eq_bind, bind_eq_some_iff] at h
      obtain ⟨amount, hamount, h⟩ := h
      simp [if_pos (amountOfDenom_of_not_mem hordered hc hamount)] at h

theorem denomsSubsetOf_iff (coins : List Coin) : denomsSubsetOf coins coinsB = some true ↔
    coins.length ≤ coinsB.length ∧ ∀ c ∈ coins, c.denom ∈ coinsB.map Coin.denom := by
  rw [denomsSubsetOf]
  split_ifs with hlen
  · simp [hlen]
  · rw [allHaveAmount_iff hordered hvalid, and_iff_right (Nat.le_of_not_lt hlen)]

theorem isAnyGTE_iff {coins : List Coin} (hcoins : ∀ c ∈ coins, c.denom ∈ coinsB.map Coin.denom) :
    isAnyGTE coins coinsB = some true ↔ ∃ c ∈ coins, ∃ r ∈ coinsB, r.denom = c.denom ∧ r.amount ≤ c.amount := by
  have hreaches : someReaches coinsB coins = some true ↔
      ∃ c ∈ coins, ∃ r ∈ coinsB, r.denom = c.denom ∧ r.amount ≤ c.amount := by
    induction coins with
    | nil => simp [someReaches]
    | cons c coins ih =>
      rw [forall_mem_cons] at hcoins
      obtain ⟨r, hr, hdenom⟩ := mem_map.mp hcoins.1
      have hunique : ∀ r' ∈ coinsB, r'.denom = c.denom → r' = r := by
        intro r' hr' hdenom'
        have hfind := (find_eq_some hordered).mpr ⟨hr, hdenom⟩
        rw [(find_eq_some hordered).mpr ⟨hr', hdenom'⟩] at hfind
        exact Option.some.inj hfind
      rw [someReaches, ← hdenom, amountOfDenom_eq hordered hvalid hr, bind_eq_bind, bind_some]
      split_ifs with hge
      · simp only [true_iff]
        exact ⟨c, mem_cons_self, r, hr, hdenom, hge.1⟩
      · rw [ih hcoins.2]
        constructor
        · rintro ⟨c', hc', h⟩
          exact ⟨c', mem_cons_of_mem _ hc', h⟩
        · rintro ⟨c', hc', r', hr', hdenom', hle⟩
          rcases mem_cons.mp hc' with rfl | hc'
          · obtain rfl := hunique r' hr' hdenom'
            exact absurd ⟨hle, (hvalid r' hr').2⟩ hge
          · exact ⟨c', hc', r', hr', hdenom', hle⟩
  rw [isAnyGTE]
  split_ifs with hlen
  · obtain rfl := length_eq_zero_iff.mp hlen
    simp
  · exact hreaches

end comparisons

end Coins

end Lib
