/-
  When the fee of a transaction is enough for the minimum gas prices.
-/
import TerpCore.GlobalFee.Fee
import TerpCore.Lib.Machine

namespace GlobalFee

open Lib SmartAccount Outcome List LegacyDec Coins

/-! ## Prices -/

/-- One price for each denomination, in increasing order, and none negative. -/
structure ValidPrices (prices : List DecCoin) : Prop where
  ordered : prices.Pairwise fun a b => compare a.denom b.denom = .lt
  denom : ∀ gp ∈ prices, validDenom gp.denom = true
  nonneg : ∀ gp ∈ prices, 0 ≤ gp.amount.num

theorem validateFrom_eq_ok : ∀ {prices : List DecCoin} {seen : List Bytes} {i : ℕ} {low : Bytes},
    validateFrom seen i low prices = .ok () → ValidPrices prices ∧ (i ≠ 0 → ∀ gp ∈ prices, compare low gp.denom = .lt)
  | [], _, _, _, _ => ⟨⟨.nil, by simp, by simp⟩, by simp⟩
  | coin :: coins, seen, i, low, h => by
    obtain ⟨_, -, h⟩ := bind_eq_ok.mp h
    obtain ⟨_, hdenom, h⟩ := bind_eq_ok.mp h
    obtain ⟨_, hlow, h⟩ := bind_eq_ok.mp h
    obtain ⟨_, hnonneg, h⟩ := bind_eq_ok.mp h
    obtain ⟨⟨hordered, hdenoms, hamounts⟩, hafter⟩ := validateFrom_eq_ok h
    rw [require_eq_ok] at hdenom hlow hnonneg
    refine ⟨⟨hordered.cons (hafter i.succ_ne_zero), forall_mem_cons.mpr ⟨hdenom, hdenoms⟩,
      forall_mem_cons.mpr ⟨of_decide_eq_true hnonneg, hamounts⟩⟩, fun hi => ?_⟩
    have hlt : compare low coin.denom = .lt := by
      rw [Bool.or_eq_true, beq_iff_eq] at hlow
      exact Ordering.isLT_iff_eq_lt.mp (hlow.resolve_left hi)
    refine forall_mem_cons.mpr ⟨hlt, fun gp hgp => ?_⟩
    exact Std.TransCmp.lt_trans hlt (hafter i.succ_ne_zero gp hgp)

theorem Params.valid_of_validate {p : Params} (h : p.validate = .ok ()) : ValidPrices p.minimumGasPrices :=
  (validateFrom_eq_ok h).1

theorem ValidPrices.nodup {prices : List DecCoin} (h : ValidPrices prices) : (prices.map DecCoin.denom).Nodup := by
  rw [List.Nodup, pairwise_map]
  refine h.ordered.imp fun {a b} hlt heq => ?_
  simp [heq, Std.ReflOrd.compare_self] at hlt

/-- The price of a denomination in a list; one that is missing is zero. -/
def priceIn (prices : List DecCoin) (denom : Bytes) : ℚ :=
  ((prices.find? fun gp => gp.denom = denom).map fun gp => gp.amount.toRat).getD 0

theorem priceIn_eq {prices : List DecCoin} (hvalid : ValidPrices prices) {gp : DecCoin} (h : gp ∈ prices) :
    priceIn prices gp.denom = gp.amount.toRat := by
  have hfind : (prices.find? fun gp' => gp'.denom = gp.denom) = some gp := by
    rw [List.find?_eq_some_iff_append]
    obtain ⟨before, after, heq⟩ := append_of_mem h
    refine ⟨by simp, before, after, heq, fun gp' hgp' => ?_⟩
    have hlt := hvalid.ordered
    rw [heq, pairwise_append] at hlt
    have hlt := hlt.2.2 gp' hgp' gp mem_cons_self
    simp only [Bool.not_eq_eq_eq_not, Bool.not_true, decide_eq_false_iff_not]
    intro heq'
    simp [heq', Std.ReflOrd.compare_self] at hlt
  rw [priceIn, hfind]
  rfl

/-- A node: the prices of its configuration, and the denomination of x/staking in its state. -/
structure Node where
  minGasPrices : List DecCoin
  bondDenom : Bytes
  prices_valid : ValidPrices minGasPrices
  bond_valid : validDenom bondDenom = true

/-- The prices that a chain asks for; without any, its denomination is free. -/
def Node.prices (node : Node) (params : Params) : List DecCoin :=
  if params.minimumGasPrices = [] then [⟨node.bondDenom, ⟨0⟩⟩] else params.minimumGasPrices

/-- The price of a denomination on the node. -/
def Node.priceOf (node : Node) (denom : Bytes) : ℚ :=
  ((node.minGasPrices.find? fun gp => gp.denom = denom).map fun gp => gp.amount.toRat).getD 0

/-- The fee for a gas limit at a price, rounded up. -/
def feeAt (price : ℚ) (gas : ℕ) : ℤ := ⌈price * (gas : ℚ)⌉

/-- What is asked in each denomination for a gas limit. -/
def Node.requirement (node : Node) (params : Params) (gas : ℕ) : List Coin :=
  (node.prices params).map fun gp => ⟨gp.denom, max (feeAt gp.amount.toRat gas) (feeAt (node.priceOf gp.denom) gas)⟩

/-- A fee is enough for what is asked.  It may repeat denominations, but not be longer than what is asked. -/
structure Meets (required fee : List Coin) (bypass : Prop) : Prop where
  denoms : ∀ c ∈ fee, c.denom ∈ required.map Coin.denom
  count : (fee.filter fun c => !(zeroDenoms required).contains c.denom).length ≤
    (required.filter fun r => r.amount != 0).length
  enough : bypass ∨ (∃ c ∈ fee, c.denom ∈ zeroDenoms required) ∨ (fee = [] ∧ zeroDenoms required ≠ []) ∨
    ∃ c ∈ fee, ∃ r ∈ required, r.denom = c.denom ∧ r.amount ≤ c.amount

def MeetsGlobalFee (mfd : FeeDecorator) (node : Node) (params : Params) (tx : Tx) : Prop :=
  ∃ feeTx, tx.feeTx = some feeTx ∧
    Meets (node.requirement params feeTx.gas.toNat) feeTx.fee (mfd.allowedToBypassMinFee tx.msgs feeTx.gas = true)

theorem Node.valid_prices (node : Node) {params : Params} (h : params.validate = .ok ()) :
    ValidPrices (node.prices params) := by
  rw [Node.prices]
  split_ifs with hnil
  · exact ⟨pairwise_singleton .., by simp [node.bond_valid], by simp⟩
  · exact Params.valid_of_validate h

theorem Node.prices_ne_nil (node : Node) (params : Params) : node.prices params ≠ [] := by
  rw [Node.prices]
  split_ifs with hnil
  · simp
  · exact hnil

theorem Node.priceOf_eq (node : Node) {gp : DecCoin} (h : gp ∈ node.minGasPrices) :
    node.priceOf gp.denom = gp.amount.toRat :=
  priceIn_eq node.prices_valid h

theorem Node.priceOf_of_not_mem (node : Node) {denom : Bytes} (h : denom ∉ node.minGasPrices.map DecCoin.denom) :
    node.priceOf denom = 0 := by
  have hnone : (node.minGasPrices.find? fun gp => gp.denom = denom) = none := by
    rw [List.find?_eq_none]
    intro gp hgp hdenom
    exact h (mem_map.mpr ⟨gp, hgp, of_decide_eq_true hdenom⟩)
  rw [Node.priceOf, hnone]
  rfl

/-! ## The fees at some prices -/

theorem feeAt_zero (gas : ℕ) : feeAt 0 gas = 0 := by simp [feeAt]

theorem feeAt_nonneg {amount : LegacyDec} (h : 0 ≤ amount.num) (gas : ℕ) : 0 ≤ feeAt amount.toRat gas := by
  refine Int.ceil_nonneg (mul_nonneg (div_nonneg ?_ ?_) (Nat.cast_nonneg gas))
  · exact_mod_cast h
  · exact_mod_cast unit_pos.le

/-- A decimal of 315 bits rounds up to an integer of 256 bits. -/
theorem fitsBits_ceil {d : LegacyDec} (h : fitsBits 315 d.num) (h0 : 0 ≤ d.num) : fitsBits 256 ⌈d.toRat⌉ := by
  have hunit := unit_pos_rat
  rw [fitsBits_iff (by decide)] at h ⊢
  have hlt : d.num < 2 ^ 255 * 2 ^ 60 := by omega
  have hle : ⌈d.toRat⌉ ≤ 2 ^ 255 * 2 - 1 := by
    rw [Int.ceil_le, toRat, div_le_iff₀ hunit]
    have hbound : d.num ≤ (2 ^ 255 * 2 - 1) * unit := hlt.le.trans (by decide)
    exact_mod_cast hbound
  have hge : 0 ≤ ⌈d.toRat⌉ := Int.ceil_nonneg (div_nonneg (by exact_mod_cast h0) hunit.le)
  omega

/-- No product of a price and the gas limit leaves the range of a decimal. -/
def InRange (prices : List DecCoin) (gas : ℕ) : Prop := ∀ gp ∈ prices, fitsBits 315 (gp.amount.num * gas) = true

theorem mapM_eq_some {α β : Type} {f : α → Option β} {g : α → β} : ∀ {l : List α}, (∀ a ∈ l, f a = some (g a)) →
    l.mapM f = some (l.map g)
  | [], _ => rfl
  | a :: l, h => by
    rw [forall_mem_cons] at h
    rw [mapM_cons, h.1, mapM_eq_some h.2]
    rfl

theorem requiredFees_eq {prices : List DecCoin} (hvalid : ValidPrices prices) {gas : ℕ} (hrange : InRange prices gas)
    {i : Int64} (hi : i.toInt = gas) :
    requiredFees i prices = some (prices.map fun gp => ⟨gp.denom, feeAt gp.amount.toRat gas⟩) := by
  refine mapM_eq_some fun gp hgp => ?_
  have hnonneg := hvalid.nonneg gp hgp
  have hrat : toRat ⟨gp.amount.num * gas⟩ = gp.amount.toRat * (gas : ℚ) := by
    rw [toRat, toRat, div_mul_eq_mul_div]
    push_cast
    rfl
  have hfits := fitsBits_ceil (hrange gp hgp) (mul_nonneg hnonneg (Int.natCast_nonneg gas))
  rw [hrat] at hfits
  rw [mul_ofInt64, mulInt, hi, if_pos (hrange gp hgp), Option.bind_eq_bind, Option.bind_some,
    roundInt_ceil, hrat, if_pos hfits, Option.bind_eq_bind, Option.bind_some, newCoin,
    if_pos ⟨hvalid.denom gp hgp, feeAt_nonneg hnonneg gas⟩]
  rfl

/-! ## What the decorator asks for -/

section required

variable {mfd : FeeDecorator} {node : Node} {params : Params} {gas : UInt64}

def Node.context (node : Node) (params : Params) : CheckContext := ⟨true, node.minGasPrices, params, node.bondDenom⟩

theorem Node.globalMinGasPrices_eq (node : Node) (params : Params) :
    globalMinGasPrices (node.context params) = .ok (node.prices params) := by
  have hbond : node.bondDenom ≠ [] := by
    intro hnil
    have hvalid := node.bond_valid
    rw [hnil] at hvalid
    cases hvalid
  unfold globalMinGasPrices Node.prices Node.context
  split_ifs with hnil
  · rw [defaultZeroGlobalFee, if_neg hbond, if_pos node.bond_valid]
  · rfl

theorem getGlobalFee_eq (hvalid : params.validate = .ok ()) (hgas : gas.toNat < 2 ^ 63)
    (hrange : InRange (node.prices params) gas.toNat) :
    mfd.getGlobalFee (node.context params) gas = .ok (sort mfd.sliceSort
      ((node.prices params).map fun gp => ⟨gp.denom, feeAt gp.amount.toRat gas.toNat⟩)) := by
  rw [FeeDecorator.getGlobalFee, node.globalMinGasPrices_eq, ok_bind,
    requiredFees_eq (node.valid_prices hvalid) hrange (toInt_toInt64 hgas)]
  rfl

theorem getMinGasPrice_eq (mfd : FeeDecorator) (params : Params) (hgas : gas.toNat < 2 ^ 63)
    (hrange : InRange node.minGasPrices gas.toNat) :
    ∃ fees, mfd.getMinGasPrice (node.context params) gas = .ok fees ∧ Coins.Ordered fees ∧
      ∀ denom, ((find fees denom).map Coin.amount).getD 0 = feeAt (node.priceOf denom) gas.toNat := by
  rw [FeeDecorator.getMinGasPrice]
  split_ifs with hzero
  · refine ⟨[], rfl, .nil, fun denom => ?_⟩
    have hprice : node.priceOf denom = 0 := by
      by_cases hmem : denom ∈ node.minGasPrices.map DecCoin.denom
      · obtain ⟨gp, hgp, rfl⟩ := mem_map.mp hmem
        have hamount : gp.amount.num = 0 := by simpa using all_eq_true.mp hzero gp hgp
        rw [node.priceOf_eq hgp, toRat, hamount, Int.cast_zero, zero_div]
      · exact node.priceOf_of_not_mem hmem
    rw [hprice, feeAt_zero]
    rfl
  · have hint : SdkInt.int64 gas.toNat = some (Int64.ofInt gas.toNat) := if_pos (by omega)
    have htoInt : (Int64.ofInt gas.toNat).toInt = gas.toNat := Int64.toInt_ofInt_of_le (by omega) (by omega)
    have hnodup : ((node.minGasPrices.map fun gp =>
        (⟨gp.denom, feeAt gp.amount.toRat gas.toNat⟩ : Coin)).map Coin.denom).Nodup := by
      rw [map_map]
      exact node.prices_valid.nodup
    refine ⟨_, ?_, sort_ordered mfd.sliceSort hnodup, fun denom => ?_⟩
    · rw [hint]
      simp only [ofOption, ok_bind, Node.context]
      rw [requiredFees_eq node.prices_valid hrange htoInt]
      rfl
    · have hordered := sort_ordered mfd.sliceSort hnodup
      by_cases hmem : denom ∈ node.minGasPrices.map DecCoin.denom
      · obtain ⟨gp, hgp, rfl⟩ := mem_map.mp hmem
        rw [(find_eq_some hordered).mpr ⟨mem_sort.mpr (mem_map_of_mem hgp), rfl⟩, node.priceOf_eq hgp]
        rfl
      · have hnone : find (sort mfd.sliceSort (node.minGasPrices.map fun gp =>
            ⟨gp.denom, feeAt gp.amount.toRat gas.toNat⟩)) denom = none := by
          rw [Option.eq_none_iff_forall_ne_some]
          intro c hc
          obtain ⟨hc, hdenom⟩ := (find_eq_some hordered).mp hc
          obtain ⟨gp, hgp, rfl⟩ := mem_map.mp (mem_sort.mp hc)
          exact hmem (mem_map.mpr ⟨gp, hgp, hdenom⟩)
        rw [hnone, node.priceOf_of_not_mem hmem, feeAt_zero]
        rfl

theorem combinedFeeRequirement_perm (mfd : FeeDecorator) (hvalid : params.validate = .ok ()) {localFees : List Coin}
    (hordered : Coins.Ordered localFees)
    (hlocal : ∀ denom, ((find localFees denom).map Coin.amount).getD 0 = feeAt (node.priceOf denom) gas.toNat) :
    (combinedFeeRequirement mfd.sliceSort (sort mfd.sliceSort
      ((node.prices params).map fun gp => ⟨gp.denom, feeAt gp.amount.toRat gas.toNat⟩)) localFees).Perm
      (node.requirement params gas.toNat) := by
  have hprices := node.valid_prices hvalid
  rw [combinedFeeRequirement]
  split_ifs with hnone hnil
  · obtain rfl := length_eq_zero_iff.mp hnone
    refine (sort_perm ..).trans (List.Perm.of_eq (map_congr_left fun gp hgp => ?_))
    rw [← hlocal gp.denom]
    exact congrArg (Coin.mk gp.denom) (max_eq_left (feeAt_nonneg (hprices.nonneg gp hgp) _)).symm
  · have hlength := (sort_perm mfd.sliceSort ((node.prices params).map fun gp =>
      (⟨gp.denom, feeAt gp.amount.toRat gas.toNat⟩ : Coin))).length_eq
    rw [hnil, length_map] at hlength
    exact absurd (length_eq_zero_iff.mp hlength.symm) (node.prices_ne_nil params)
  · refine (sort_perm ..).trans (((sort_perm ..).map _).trans (List.Perm.of_eq ?_))
    rw [map_map]
    refine map_congr_left fun gp hgp => ?_
    rw [Function.comp_apply, ← hlocal gp.denom]
    rcases hfind : find localFees gp.denom with _ | c
    · exact congrArg (Coin.mk gp.denom) (max_eq_left (feeAt_nonneg (hprices.nonneg gp hgp) _)).symm
    · obtain ⟨-, hdenom⟩ := (find_eq_some hordered).mp hfind
      dsimp only [Option.map_some, Option.getD_some]
      split_ifs with hlt
      · rw [max_eq_right hlt.le, ← hdenom]
      · rw [max_eq_left (not_lt.mp hlt)]

end required

/-! ## The decorator accepts what is enough -/

section accepted

variable {mfd : FeeDecorator}

theorem checkFees_eq_ok {ctx : CheckContext} {msgs : List Msg} {feeTx : FeeTx}
    {globalFees localFees combined : List Coin} {required : List Coin × List Bytes} {paid : List Coin × List Coin}
    (hglobal : mfd.getGlobalFee ctx feeTx.gas = .ok globalFees)
    (hlocal : mfd.getMinGasPrice ctx feeTx.gas = .ok localFees)
    (hcombined : combinedFeeRequirement mfd.sliceSort globalFees localFees = combined) (hne : combined ≠ [])
    (hrequired : getNonZeroFees mfd.sliceSort combined = required)
    (hpaid : splitCoinsByDenoms mfd.sliceSort (sort mfd.sliceSort feeTx.fee) required.2 = paid) :
    mfd.checkFees ctx msgs feeTx = .ok () ↔ denomsSubsetOf paid.1 required.1 = some true ∧
      (mfd.allowedToBypassMinFee msgs feeTx.gas = true ∨ paid.2 ≠ [] ∨ (feeTx.fee = [] ∧ required.2 ≠ []) ∨
        isAnyGTE paid.1 required.1 = some true) := by
  have hfee : (sort mfd.sliceSort feeTx.fee).length = feeTx.fee.length := (sort_perm ..).length_eq
  have hlength : (combined.length != 0) = true := by simpa using hne
  rw [FeeDecorator.checkFees, hglobal, hlocal]
  simp only [ok_bind, hcombined, require_of hlength, hrequired, hpaid, hfee]
  constructor
  · intro h
    obtain ⟨subset, hsubset, h⟩ := bind_eq_ok.mp h
    obtain ⟨_, htrue, h⟩ := bind_eq_ok.mp h
    rw [require_eq_ok] at htrue
    rw [ofOption_eq_ok, htrue] at hsubset
    refine ⟨hsubset, ?_⟩
    split_ifs at h with hamounts hfree
    · exact .inr (.inr (.inl (by simpa using hfree)))
    · obtain ⟨anyGTE, hany, h⟩ := bind_eq_ok.mp h
      rw [require_eq_ok] at h
      rw [ofOption_eq_ok, h] at hany
      exact .inr (.inr (.inr hany))
    · by_cases hbypass : mfd.allowedToBypassMinFee msgs feeTx.gas = true
      · exact .inl hbypass
      · exact .inr (.inl (by simpa [hbypass] using hamounts))
  · rintro ⟨hsubset, henough⟩
    rw [hsubset]
    split_ifs with hamounts hfree
    · rfl
    · rcases henough with hbypass | hzero | hempty | hany
      · simp [hbypass] at hamounts
      · simp [hzero] at hamounts
      · exact absurd (by simpa using hempty) hfree
      · rw [hany]
        rfl
    · rfl

/-- A list with one coin for each denomination, in any order, of valid ones. -/
structure Askable (required : List Coin) : Prop where
  nodup : (required.map Coin.denom).Nodup
  denom : ∀ r ∈ required, validDenom r.denom = true

theorem Node.askable_requirement (node : Node) {params : Params} (h : params.validate = .ok ()) (gas : ℕ) :
    Askable (node.requirement params gas) := by
  have hprices := node.valid_prices h
  constructor
  · rw [Node.requirement, map_map]
    exact hprices.nodup
  · intro r hr
    obtain ⟨gp, hgp, rfl⟩ := mem_map.mp hr
    exact hprices.denom gp hgp

theorem mem_zeroDenoms {required : List Coin} {denom : Bytes} :
    denom ∈ zeroDenoms required ↔ ∃ r ∈ required, r.amount = 0 ∧ r.denom = denom := by
  simp [zeroDenoms, and_assoc]

section tests

variable {sliceSort : SliceSort} {required combined fee : List Coin} {denoms denoms' : List Bytes}

theorem mem_nonZeroFees (h : combined.Perm required) {r : Coin} :
    r ∈ (getNonZeroFees sliceSort combined).1 ↔ r ∈ required ∧ r.amount ≠ 0 := by
  rw [getNonZeroFees, mem_sort, mem_filter, h.mem_iff, bne_iff_ne]

theorem length_nonZeroFees (h : combined.Perm required) :
    (getNonZeroFees sliceSort combined).1.length = (required.filter fun r => r.amount != 0).length :=
  (sort_perm ..).length_eq.trans (h.filter _).length_eq

theorem nonZeroFees_ordered (sliceSort : SliceSort) (h : combined.Perm required) (hask : Askable required) :
    Coins.Ordered (getNonZeroFees sliceSort combined).1 := by
  refine sort_ordered sliceSort ?_
  exact ((h.map Coin.denom).nodup_iff.mpr hask.nodup).sublist (filter_sublist.map Coin.denom)

theorem mem_split_fst {c : Coin} :
    c ∈ (splitCoinsByDenoms sliceSort (sort sliceSort fee) denoms).1 ↔ c ∈ fee ∧ c.denom ∉ denoms := by
  rw [splitCoinsByDenoms, mem_sort, mem_filter, mem_sort]
  simp

theorem length_split_fst (h : ∀ d, d ∈ denoms ↔ d ∈ denoms') :
    (splitCoinsByDenoms sliceSort (sort sliceSort fee) denoms).1.length =
      (fee.filter fun c => !denoms'.contains c.denom).length := by
  have hcontains : ∀ d, denoms.contains d = denoms'.contains d := by
    intro d
    rw [Bool.eq_iff_iff, contains_iff_mem, contains_iff_mem, h]
  simp only [splitCoinsByDenoms, hcontains]
  exact (sort_perm ..).length_eq.trans ((sort_perm sliceSort fee).filter _).length_eq

theorem split_snd_ne_nil : (splitCoinsByDenoms sliceSort (sort sliceSort fee) denoms).2 ≠ [] ↔
    ∃ c ∈ fee, c.denom ∈ denoms := by
  have hmem : ∀ c, c ∈ (splitCoinsByDenoms sliceSort (sort sliceSort fee) denoms).2 ↔ c ∈ fee ∧ c.denom ∈ denoms := by
    intro c
    rw [splitCoinsByDenoms, mem_sort, mem_filter, mem_sort, contains_iff_mem]
  simp only [← hmem]
  exact ⟨exists_mem_of_ne_nil _, by rintro ⟨c, hc⟩; exact ne_nil_of_mem hc⟩

end tests

theorem meets_iff (sliceSort : SliceSort) {required combined fee : List Coin} (hperm : combined.Perm required)
    (hask : Askable required) {bypass : Prop} {nonZero : List Coin × List Bytes} {paid : List Coin × List Coin}
    (hnonZero : getNonZeroFees sliceSort combined = nonZero)
    (hpaid : splitCoinsByDenoms sliceSort (sort sliceSort fee) nonZero.2 = paid) :
    (denomsSubsetOf paid.1 nonZero.1 = some true ∧ (bypass ∨ paid.2 ≠ [] ∨ (fee = [] ∧ nonZero.2 ≠ []) ∨
      isAnyGTE paid.1 nonZero.1 = some true)) ↔ Meets required fee bypass := by
  subst hnonZero hpaid
  have hzero : ((getNonZeroFees sliceSort combined).2).Perm (zeroDenoms required) := (hperm.filter _).map _
  have hordered := nonZeroFees_ordered sliceSort hperm hask
  have hvalid : ∀ r ∈ (getNonZeroFees sliceSort combined).1, validDenom r.denom = true ∧ r.amount ≠ 0 := by
    intro r hr
    obtain ⟨hr, hamount⟩ := (mem_nonZeroFees hperm).mp hr
    exact ⟨hask.denom r hr, hamount⟩
  -- a coin of the fee is free, or is asked for among those that are not
  have hcases : ∀ c : Coin, c.denom ∈ required.map Coin.denom → c.denom ∉ zeroDenoms required →
      c.denom ∈ (getNonZeroFees sliceSort combined).1.map Coin.denom := by
    intro c hc hnot
    obtain ⟨r, hr, hdenom⟩ := mem_map.mp hc
    have hamount : r.amount ≠ 0 := fun h0 => hnot (mem_zeroDenoms.mpr ⟨r, hr, h0, hdenom⟩)
    exact mem_map.mpr ⟨r, (mem_nonZeroFees hperm).mpr ⟨hr, hamount⟩, hdenom⟩
  have hpaid : ∀ c, c ∈ (splitCoinsByDenoms sliceSort (sort sliceSort fee)
      (getNonZeroFees sliceSort combined).2).1 ↔ c ∈ fee ∧ c.denom ∉ zeroDenoms required := by
    intro c
    rw [mem_split_fst, hzero.mem_iff]
  rw [denomsSubsetOf_iff hordered hvalid, length_split_fst (fun d => hzero.mem_iff), length_nonZeroFees hperm,
    split_snd_ne_nil]
  simp only [hzero.mem_iff]
  have hnil : (getNonZeroFees sliceSort combined).2 ≠ [] ↔ zeroDenoms required ≠ [] := by
    rw [ne_eq, ne_eq, ← length_eq_zero_iff, ← length_eq_zero_iff, hzero.length_eq]
  constructor
  · rintro ⟨⟨hcount, hsubset⟩, henough⟩
    refine ⟨?_, hcount, ?_⟩
    · intro c hc
      by_cases hfree : c.denom ∈ zeroDenoms required
      · obtain ⟨r, hr, -, hdenom⟩ := mem_zeroDenoms.mp hfree
        exact mem_map.mpr ⟨r, hr, hdenom⟩
      · obtain ⟨r, hr, hdenom⟩ := mem_map.mp (hsubset c ((hpaid c).mpr ⟨hc, hfree⟩))
        exact mem_map.mpr ⟨r, ((mem_nonZeroFees hperm).mp hr).1, hdenom⟩
    · rcases henough with h | h | h | h
      · exact .inl h
      · exact .inr (.inl h)
      · exact .inr (.inr (.inl ⟨h.1, hnil.mp h.2⟩))
      · rw [isAnyGTE_iff hordered hvalid hsubset] at h
        obtain ⟨c, hc, r, hr, hge⟩ := h
        exact .inr (.inr (.inr ⟨c, ((hpaid c).mp hc).1, r, ((mem_nonZeroFees hperm).mp hr).1, hge⟩))
  · rintro ⟨hdenoms, hcount, henough⟩
    have hsubset : ∀ c ∈ (splitCoinsByDenoms sliceSort (sort sliceSort fee)
        (getNonZeroFees sliceSort combined).2).1, c.denom ∈ (getNonZeroFees sliceSort combined).1.map Coin.denom := by
      intro c hc
      obtain ⟨hc, hnot⟩ := (hpaid c).mp hc
      exact hcases c (hdenoms c hc) hnot
    refine ⟨⟨hcount, hsubset⟩, ?_⟩
    rcases henough with h | h | h | ⟨c, hc, r, hr, hdenom, hge⟩
    · exact .inl h
    · exact .inr (.inl h)
    · exact .inr (.inr (.inl ⟨h.1, hnil.mpr h.2⟩))
    · by_cases hfree : c.denom ∈ zeroDenoms required
      · exact .inr (.inl ⟨c, hc, hfree⟩)
      · refine .inr (.inr (.inr ?_))
        rw [isAnyGTE_iff hordered hvalid hsubset]
        have hamount : r.amount ≠ 0 := fun h0 => hfree (mem_zeroDenoms.mpr ⟨r, hr, h0, hdenom⟩)
        exact ⟨c, (hpaid c).mpr ⟨hc, hfree⟩, r, (mem_nonZeroFees hperm).mpr ⟨hr, hamount⟩, hdenom, hge⟩

/-- The decorator accepts a fee that is enough, and no other, as long as its numbers are in range. -/
theorem checkFees_eq_ok_iff (mfd : FeeDecorator) (node : Node) {params : Params} (hvalid : params.validate = .ok ())
    (msgs : List Msg) (feeTx : FeeTx) (hgas : feeTx.gas.toNat < 2 ^ 63)
    (hglobal : InRange (node.prices params) feeTx.gas.toNat) (hlocal : InRange node.minGasPrices feeTx.gas.toNat) :
    mfd.checkFees (node.context params) msgs feeTx = .ok () ↔ Meets (node.requirement params feeTx.gas.toNat) feeTx.fee
        (mfd.allowedToBypassMinFee msgs feeTx.gas = true) := by
  obtain ⟨localFees, hfees, hordered, hprice⟩ := getMinGasPrice_eq mfd params hgas hlocal
  have hperm := combinedFeeRequirement_perm mfd hvalid hordered hprice
  have hne : combinedFeeRequirement mfd.sliceSort (sort mfd.sliceSort
      ((node.prices params).map fun gp => ⟨gp.denom, feeAt gp.amount.toRat feeTx.gas.toNat⟩)) localFees ≠ [] := by
    intro hnil
    rw [hnil, nil_perm, Node.requirement, map_eq_nil_iff] at hperm
    exact node.prices_ne_nil params hperm
  rw [checkFees_eq_ok (getGlobalFee_eq hvalid hgas hglobal) hfees rfl hne rfl rfl]
  exact meets_iff mfd.sliceSort hperm (node.askable_requirement hvalid _) rfl rfl

end accepted

end GlobalFee
