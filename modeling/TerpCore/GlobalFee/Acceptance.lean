/-
  Which transactions the fee decorator passes on.
-/
import TerpCore.GlobalFee.Condition
import Mathlib.Data.List.Perm.Subperm

namespace GlobalFee

open Lib SmartAccount Outcome List LegacyDec

/-! ## The rule -/

/-- The prices that the chain asks for; without any, its denomination is free. -/
def CheckContext.prices (ctx : CheckContext) : List DecCoin :=
  if ctx.params.minimumGasPrices = [] then [⟨ctx.bondDenom, ⟨0⟩⟩] else ctx.params.minimumGasPrices

/-- What is asked in a denomination: the higher one of the fees of the chain and of the node. -/
def CheckContext.requiredFee (ctx : CheckContext) (gas : ℕ) (denom : Bytes) : ℤ :=
  max (feeAt (priceIn ctx.prices denom) gas) (feeAt (priceIn ctx.minGasPrices denom) gas)

/-- What is asked can be computed. -/
structure CheckContext.Computes (ctx : CheckContext) (gas : ℕ) : Prop where
  bond : ctx.params.minimumGasPrices = [] → validDenom ctx.bondDenom = true
  ofChain : InRange ctx.prices gas
  ofNode : InRange ctx.minGasPrices gas

/-- The fee of a transaction is one that the decorator is to accept. -/
structure FeeDecorator.Accepts (mfd : FeeDecorator) (ctx : CheckContext) (msgs : List Msg) (feeTx : FeeTx) : Prop where
  denoms : ∀ c ∈ feeTx.fee, c.denom ∈ ctx.prices.map DecCoin.denom
  enough : ((∀ msg ∈ msgs, msg.typeURL ∈ mfd.bypassMinFeeMsgTypes) ∧
      feeTx.gas ≤ mfd.maxTotalBypassMinFeeMsgGasUsage) ∨
    (∃ c ∈ feeTx.fee, ctx.requiredFee feeTx.gas.toNat c.denom ≤ c.amount) ∨
    (feeTx.fee = [] ∧ ∃ gp ∈ ctx.prices, ctx.requiredFee feeTx.gas.toNat gp.denom = 0)

theorem allowedToBypassMinFee_iff {mfd : FeeDecorator} {msgs : List Msg} {gas : UInt64} :
    mfd.allowedToBypassMinFee msgs gas = true ↔
      (∀ msg ∈ msgs, msg.typeURL ∈ mfd.bypassMinFeeMsgTypes) ∧ gas ≤ mfd.maxTotalBypassMinFeeMsgGasUsage := by
  simp [FeeDecorator.allowedToBypassMinFee, FeeDecorator.containsOnlyBypassMinFeeMsgs]

/-! ## Valid fees -/

section fees

variable {denoms : List Bytes} {R : Bytes → ℤ} {fee : List Coin}

theorem mem_zeroDenoms_map {d : Bytes} : d ∈ zeroDenoms (denoms.map fun d => ⟨d, R d⟩) ↔ d ∈ denoms ∧ R d = 0 := by
  rw [mem_zeroDenoms]
  constructor
  · rintro ⟨r, hr, hzero, rfl⟩
    obtain ⟨d, hd, rfl⟩ := mem_map.mp hr
    exact ⟨hd, hzero⟩
  · rintro ⟨hd, hzero⟩
    exact ⟨⟨d, R d⟩, mem_map.mpr ⟨d, hd, rfl⟩, hzero, rfl⟩

theorem count_of_nodup (hfee : (fee.map Coin.denom).Nodup) (hdenoms : ∀ c ∈ fee, c.denom ∈ denoms) :
    (fee.filter fun c => !(zeroDenoms (denoms.map fun d => ⟨d, R d⟩)).contains c.denom).length ≤
      ((denoms.map fun d => (⟨d, R d⟩ : Coin)).filter fun r => r.amount != 0).length := by
  set paid := fee.filter fun c => !(zeroDenoms (denoms.map fun d => ⟨d, R d⟩)).contains c.denom with hpaid
  have hnodup : (paid.map Coin.denom).Nodup := hfee.sublist (filter_sublist.map Coin.denom)
  have hsubset : paid.map Coin.denom ⊆
      ((denoms.map fun d => (⟨d, R d⟩ : Coin)).filter fun r => r.amount != 0).map Coin.denom := by
    intro d hd
    obtain ⟨c, hc, rfl⟩ := mem_map.mp hd
    obtain ⟨hc, hnot⟩ := mem_filter.mp hc
    rw [Bool.not_eq_true', ← Bool.not_eq_true, contains_iff_mem, mem_zeroDenoms_map] at hnot
    have hd := hdenoms c hc
    refine mem_map.mpr ⟨⟨c.denom, R c.denom⟩, mem_filter.mpr ⟨mem_map.mpr ⟨_, hd, rfl⟩, ?_⟩, rfl⟩
    exact bne_iff_ne.mpr fun hzero => hnot ⟨hd, hzero⟩
  have hle := (hnodup.subperm hsubset).length_le
  rwa [length_map, length_map] at hle

theorem meets_iff_of_valid (hfee : validCoins fee = true) {bypass : Prop} :
    Meets (denoms.map fun d => ⟨d, R d⟩) fee bypass ↔ (∀ c ∈ fee, c.denom ∈ denoms) ∧
      (bypass ∨ (∃ c ∈ fee, R c.denom ≤ c.amount) ∨ (fee = [] ∧ ∃ d ∈ denoms, R d = 0)) := by
  obtain ⟨hordered, hvalid⟩ := Coins.ordered_of_validCoins hfee
  have hmap : (denoms.map fun d => (⟨d, R d⟩ : Coin)).map Coin.denom = denoms := by
    rw [map_map]
    exact map_id denoms
  have hzero : zeroDenoms (denoms.map fun d => ⟨d, R d⟩) ≠ [] ↔ ∃ d ∈ denoms, R d = 0 := by
    simp only [← mem_zeroDenoms_map]
    exact ⟨exists_mem_of_ne_nil _, by rintro ⟨d, hd⟩; exact ne_nil_of_mem hd⟩
  constructor
  · rintro ⟨hdenoms, -, henough⟩
    rw [hmap] at hdenoms
    refine ⟨hdenoms, ?_⟩
    rcases henough with h | ⟨c, hc, hfree⟩ | ⟨hnil, hfree⟩ | ⟨c, hc, r, hr, hdenom, hge⟩
    · exact .inl h
    · refine .inr (.inl ⟨c, hc, ?_⟩)
      rw [(mem_zeroDenoms_map.mp hfree).2]
      exact (hvalid c hc).2.le
    · exact .inr (.inr ⟨hnil, hzero.mp hfree⟩)
    · obtain ⟨d, -, rfl⟩ := mem_map.mp hr
      obtain rfl : d = c.denom := hdenom
      exact .inr (.inl ⟨c, hc, hge⟩)
  · rintro ⟨hdenoms, henough⟩
    refine ⟨by rwa [hmap], count_of_nodup hordered.nodup hdenoms, ?_⟩
    rcases henough with h | ⟨c, hc, hge⟩ | ⟨hnil, hfree⟩
    · exact .inl h
    · exact .inr (.inr (.inr ⟨c, hc, _, mem_map.mpr ⟨c.denom, hdenoms c hc, rfl⟩, rfl, hge⟩))
    · exact .inr (.inr (.inl ⟨hnil, hzero.mpr hfree⟩))

end fees

/-! ## What can be computed -/

theorem exists_of_mapM {α β : Type} {f : α → Option β} : ∀ {l : List α} {bs : List β}, l.mapM f = some bs →
    ∀ a ∈ l, ∃ b, f a = some b
  | [], _, _ => by simp
  | a :: l, bs, h => by
    rw [mapM_cons, Option.bind_eq_bind, Option.bind_eq_some_iff] at h
    obtain ⟨b, hb, h⟩ := h
    rw [Option.bind_eq_bind, Option.bind_eq_some_iff] at h
    obtain ⟨bs', hbs, -⟩ := h
    exact forall_mem_cons.mpr ⟨⟨b, hb⟩, exists_of_mapM hbs⟩

theorem inRange_of_requiredFees {prices : List DecCoin} {gas : ℕ} {i : Int64} (hi : i.toInt = gas) {fees : List Coin}
    (h : requiredFees i prices = some fees) : InRange prices gas := by
  intro gp hgp
  obtain ⟨fee, hfee⟩ := exists_of_mapM h gp hgp
  rw [Option.bind_eq_bind, Option.bind_eq_some_iff] at hfee
  obtain ⟨product, hproduct, -⟩ := hfee
  rw [mul_ofInt64, mulInt, hi] at hproduct
  by_contra hnot
  simp [if_neg hnot] at hproduct

section computed

variable {mfd : FeeDecorator} {ctx : CheckContext} {gas : UInt64}

theorem globalMinGasPrices_eq_ok {prices : List DecCoin} (h : globalMinGasPrices ctx = .ok prices) :
    prices = ctx.prices ∧ (ctx.params.minimumGasPrices = [] → validDenom ctx.bondDenom = true) := by
  unfold globalMinGasPrices defaultZeroGlobalFee at h
  unfold CheckContext.prices
  split_ifs at h ⊢ with hnil hempty hvalid
  · cases h
    exact ⟨rfl, fun _ => hvalid⟩
  · cases h
    exact ⟨rfl, fun heq => absurd heq hnil⟩

theorem inRange_of_isZero {prices : List DecCoin} (h : isZero prices = true) (gas : ℕ) : InRange prices gas := by
  intro gp hgp
  have hzero : gp.amount.num = 0 := by simpa using all_eq_true.mp h gp hgp
  rw [hzero, zero_mul]
  decide

theorem computes_of_checkFees (hgas : gas.toNat < 2 ^ 63) {globalFees localFees : List Coin}
    (hglobal : mfd.getGlobalFee ctx gas = .ok globalFees) (hlocal : mfd.getMinGasPrice ctx gas = .ok localFees) :
    ctx.Computes gas.toNat := by
  obtain ⟨prices, hprices, hglobal⟩ := bind_eq_ok.mp hglobal
  obtain ⟨rfl, hbond⟩ := globalMinGasPrices_eq_ok hprices
  obtain ⟨fees, hfees, -⟩ := bind_eq_ok.mp hglobal
  refine ⟨hbond, inRange_of_requiredFees (toInt_toInt64 hgas) (ofOption_eq_ok.mp hfees), ?_⟩
  rw [FeeDecorator.getMinGasPrice] at hlocal
  split_ifs at hlocal with hzero
  · exact inRange_of_isZero hzero _
  · obtain ⟨i, hi, hlocal⟩ := bind_eq_ok.mp hlocal
    obtain ⟨fees, hfees, -⟩ := bind_eq_ok.mp hlocal
    have hint : SdkInt.int64 gas.toNat = some (Int64.ofInt gas.toNat) := if_pos (by omega)
    rw [hint, ofOption_eq_ok] at hi
    cases hi
    exact inRange_of_requiredFees (Int64.toInt_ofInt_of_le (by omega) (by omega)) (ofOption_eq_ok.mp hfees)

end computed

/-! ## The decorator -/

section decorator

variable {mfd : FeeDecorator} {ctx : CheckContext} {msgs : List Msg} {feeTx : FeeTx}

theorem CheckContext.valid_prices (hparams : ctx.params.validate = .ok ())
    (hbond : ctx.params.minimumGasPrices = [] → validDenom ctx.bondDenom = true) : ValidPrices ctx.prices := by
  rw [CheckContext.prices]
  split_ifs with hnil
  · exact ⟨pairwise_singleton .., by simpa using hbond hnil, by simp⟩
  · exact Params.valid_of_validate hparams

theorem checkFees_congr {ctx' : CheckContext} (hglobal : globalMinGasPrices ctx = globalMinGasPrices ctx')
    (hmin : ctx.minGasPrices = ctx'.minGasPrices) : mfd.checkFees ctx msgs feeTx = mfd.checkFees ctx' msgs feeTx := by
  simp only [FeeDecorator.checkFees, FeeDecorator.getGlobalFee, FeeDecorator.getMinGasPrice, hglobal, hmin]

/-- The denomination of x/staking is read only for an empty list of prices, so a node with a valid one computes the
same. -/
theorem exists_node (mfd : FeeDecorator) (hlocal : ValidPrices ctx.minGasPrices)
    (hbond : ctx.params.minimumGasPrices = [] → validDenom ctx.bondDenom = true) :
    ∃ node : Node, node.minGasPrices = ctx.minGasPrices ∧ node.prices ctx.params = ctx.prices ∧
      ∀ msgs feeTx, mfd.checkFees ctx msgs feeTx = mfd.checkFees (node.context ctx.params) msgs feeTx := by
  by_cases hvalid : validDenom ctx.bondDenom = true
  · exact ⟨⟨ctx.minGasPrices, ctx.bondDenom, hlocal, hvalid⟩, rfl, rfl, fun msgs feeTx => checkFees_congr rfl rfl⟩
  · have hne : ctx.params.minimumGasPrices ≠ [] := fun hnil => hvalid (hbond hnil)
    refine ⟨⟨ctx.minGasPrices, ascii "uterp", hlocal, by decide⟩, rfl, ?_, fun msgs feeTx => checkFees_congr ?_ rfl⟩
    · rw [Node.prices, CheckContext.prices, if_neg hne, if_neg hne]
    · exact (if_neg hne).trans (if_neg hne).symm

theorem checkFees_iff_of_computes (hparams : ctx.params.validate = .ok ()) (hlocal : ValidPrices ctx.minGasPrices)
    (hfee : validCoins feeTx.fee = true) (hgas : feeTx.gas.toNat < 2 ^ 63)
    (hcomputes : ctx.Computes feeTx.gas.toNat) :
    mfd.checkFees ctx msgs feeTx = .ok () ↔ mfd.Accepts ctx msgs feeTx := by
  obtain ⟨node, hmin, hprices, hsame⟩ := exists_node mfd hlocal hcomputes.bond
  have hvalid := CheckContext.valid_prices hparams hcomputes.bond
  have hrequirement : node.requirement ctx.params feeTx.gas.toNat =
      (ctx.prices.map DecCoin.denom).map fun d => ⟨d, ctx.requiredFee feeTx.gas.toNat d⟩ := by
    rw [Node.requirement, hprices, map_map]
    refine map_congr_left fun gp hgp => ?_
    rw [Function.comp_apply, CheckContext.requiredFee, priceIn_eq hvalid hgp, Node.priceOf, hmin]
    rfl
  rw [hsame, checkFees_eq_ok_iff mfd node hparams msgs feeTx hgas (hprices ▸ hcomputes.ofChain)
    (hmin ▸ hcomputes.ofNode), hrequirement, meets_iff_of_valid hfee, allowedToBypassMinFee_iff]
  constructor
  · rintro ⟨hdenoms, henough⟩
    exact ⟨hdenoms, by simpa using henough⟩
  · rintro ⟨hdenoms, henough⟩
    exact ⟨hdenoms, by simpa using henough⟩

/-- **What the decorator passes on**: for valid parameters, prices and fee coins and a gas limit of 63 bits, a
transaction in CheckTx is passed on if and only if what is asked can be computed and its fee is one that the rule
accepts. -/
theorem passed_on_iff (mfd : FeeDecorator) (ctx : CheckContext) (hparams : ctx.params.validate = .ok ())
    (hlocal : ValidPrices ctx.minGasPrices) (hcheck : ctx.isCheckTx = true) (tx : Tx) (feeTx : FeeTx)
    (htx : tx.feeTx = some feeTx) (hfee : validCoins feeTx.fee = true) (hgas : feeTx.gas.toNat < 2 ^ 63) :
    mfd.anteHandle ctx tx false = .ok () ↔ ctx.Computes feeTx.gas.toNat ∧ mfd.Accepts ctx tx.msgs feeTx := by
  have hante : mfd.anteHandle ctx tx false = mfd.checkFees ctx tx.msgs feeTx := by
    simp [FeeDecorator.anteHandle, htx, hcheck]
  rw [hante]
  constructor
  · intro h
    have hcomputes : ctx.Computes feeTx.gas.toNat := by
      obtain ⟨globalFees, hglobalFees, hrest⟩ := bind_eq_ok.mp h
      obtain ⟨localFees, hlocalFees, -⟩ := bind_eq_ok.mp hrest
      exact computes_of_checkFees hgas hglobalFees hlocalFees
    exact ⟨hcomputes, (checkFees_iff_of_computes hparams hlocal hfee hgas hcomputes).mp h⟩
  · rintro ⟨hcomputes, haccepts⟩
    exact (checkFees_iff_of_computes hparams hlocal hfee hgas hcomputes).mpr haccepts

end decorator

/-! ## A transfer over IBC -/

namespace Transfer

def msgTransfer : Bytes := ascii "/ibc.applications.transfer.v1.MsgTransfer"

def decorator : FeeDecorator := ⟨[msgTransfer], 2000000, .insertion⟩

def feeTx (gas : UInt64) (fee : List Coin) : FeeTx := ⟨[], [], fee, gas⟩

def tx (gas : UInt64) (fee : List Coin) : Tx where
  msgs := [⟨msgTransfer, none, none, .other⟩]
  feeTx := some (feeTx gas fee)
  extensions := none
  sigTx := none
  timeoutHeight := none
  memo := none

def context (price : ℤ) : CheckContext := ⟨true, [], ⟨[⟨ascii "uterp", ⟨price⟩⟩]⟩, ascii "uterp"⟩

/-- A chain without prices whose denomination of x/staking is no denomination. -/
def misnamed : CheckContext := ⟨true, [], ⟨[]⟩, ascii "u"⟩

theorem validPrices_nil : ValidPrices [] := ⟨.nil, by simp, by simp⟩

theorem accepts_free (ctx : CheckContext) : decorator.Accepts ctx (tx 4 []).msgs (feeTx 4 []) :=
  ⟨by simp [feeTx], .inl ⟨by decide, by decide⟩⟩

end Transfer

open Transfer in
/-- At a quarter each, three million units of gas are paid with a quarter as much. -/
theorem quarter_passed_on :
    decorator.anteHandle (context (unit / 4)) (tx 3000000 [⟨ascii "uterp", 750000⟩]) false = .ok () := by
  have hfee : feeAt (priceIn (context (unit / 4)).prices (ascii "uterp")) 3000000 = 750000 := by
    have hprice : priceIn (context (unit / 4)).prices (ascii "uterp") = 1 / 4 := by
      simp [priceIn, CheckContext.prices, context, toRat, unit]
      norm_num
    rw [hprice, feeAt]
    norm_num
  refine (passed_on_iff decorator (context (unit / 4)) (by decide +kernel) validPrices_nil rfl _
    (feeTx 3000000 [⟨ascii "uterp", 750000⟩]) rfl (by decide +kernel) (by decide)).mpr ⟨⟨?_, ?_, ?_⟩, ?_, ?_⟩
  · exact fun _ => by decide +kernel
  · exact forall_mem_singleton.mpr (by decide +kernel)
  · exact forall_mem_nil _
  · exact forall_mem_singleton.mpr (by decide +kernel)
  · refine .inr (.inl ⟨_, mem_singleton_self _, ?_⟩)
    exact max_le hfee.le (by simp [context, priceIn, feeAt])

open Transfer in
/-- A price that may be set panics for four units of gas, and so does a name that is no denomination, though transfers
bypass the fee. -/
theorem transfer_panics :
    ((context (2 ^ 314)).params.validate = .ok () ∧ ValidPrices (context (2 ^ 314)).minGasPrices ∧
      decorator.Accepts (context (2 ^ 314)) (tx 4 []).msgs (feeTx 4 []) ∧
      decorator.anteHandle (context (2 ^ 314)) (tx 4 []) false = .panicked) ∧
    misnamed.bondDenom ≠ [] ∧ misnamed.params.validate = .ok () ∧ ValidPrices misnamed.minGasPrices ∧
      decorator.Accepts misnamed (tx 4 []).msgs (feeTx 4 []) ∧
      decorator.anteHandle misnamed (tx 4 []) false = .panicked := by
  refine ⟨⟨by decide +kernel, validPrices_nil, accepts_free _, by decide +kernel⟩, by decide, by decide +kernel,
    validPrices_nil, accepts_free _, by decide +kernel⟩

end GlobalFee
