/-
  The chain of ante handlers that is deployed.

  `NewAnteHandler` is given the keeper of this module and does not use it.
-/
import TerpCore.GlobalFee.Condition
import TerpCore.SmartAccount.App

namespace GlobalFee

open Lib SmartAccount List LegacyDec

variable {ρ : Type}

def getDefaultBypassFeeMessages : List Bytes :=
  [ascii "/ibc.core.channel.v1.MsgRecvPacket", ascii "/ibc.core.channel.v1.MsgAcknowledgement",
    ascii "/ibc.core.client.v1.MsgUpdateClient", ascii "/ibc.applications.transfer.v1.MsgTransfer",
    ascii "/ibc.core.channel.v1.MsgTimeout", ascii "/ibc.core.channel.v1.MsgTimeoutOnClose"]

def maxBypassMinFeeMsgGasUsage : UInt64 := 2000000

/-- What a transaction is checked in: what the handlers reach, and the store of this module, which they do not. -/
structure CheckState (ρ : Type) where
  txContext : TxContext ρ
  globalFee : Params

def checkTx (app : App ρ) (tx : Tx) : Proc (CheckState ρ) SmartAccount.Err Flow :=
  .zoom CheckState.txContext (fun s t => { s with txContext := t }) (app.anteHandler tx)

/-- A transaction that asks no fee of anybody: it pays none, and bypasses the fee or has no gas. -/
def Exempt (mfd : FeeDecorator) (tx : Tx) : Prop :=
  ∃ feeTx, tx.feeTx = some feeTx ∧ feeTx.fee = [] ∧
    (mfd.allowedToBypassMinFee tx.msgs feeTx.gas = true ∨ feeTx.gas = 0)

def priced (denom : Bytes) : Params := ⟨[⟨denom, ⟨unit⟩⟩]⟩

theorem validate_priced {denom : Bytes} (h : validDenom denom = true) : (priced denom).validate = .ok () := by
  rw [Params.validate, priced, validateFrom, h]
  rfl

theorem requirement_priced (node : Node) (denom : Bytes) (gas : ℕ) :
    node.requirement (priced denom) gas = [⟨denom, max gas (feeAt (node.priceOf denom) gas)⟩] := by
  have hone : toRat ⟨unit⟩ = 1 := div_self (by exact_mod_cast unit_pos.ne')
  have hfee : feeAt (toRat ⟨unit⟩) gas = gas := by
    rw [hone, feeAt, one_mul, Int.ceil_natCast]
  have hprices : node.prices (priced denom) = [⟨denom, ⟨unit⟩⟩] := if_neg (cons_ne_nil _ _)
  rw [Node.requirement, hprices, map_singleton, hfee]

theorem not_meets_priced (node : Node) (gas : ℕ) {denom : Bytes} {fee : List Coin} {c : Coin} (hc : c ∈ fee)
    (hne : c.denom ≠ denom) (bypass : Prop) : ¬ Meets (node.requirement (priced denom) gas) fee bypass := by
  rintro ⟨hdenoms, -, -⟩
  have hmem := hdenoms c hc
  rw [requirement_priced, map_singleton, mem_singleton] at hmem
  exact hne hmem

theorem not_meets_nil (node : Node) {gas : ℕ} (hgas : gas ≠ 0) (denom : Bytes) {bypass : Prop} (hbypass : ¬ bypass) :
    ¬ Meets (node.requirement (priced denom) gas) [] bypass := by
  rintro ⟨-, -, henough⟩
  have hzero : zeroDenoms (node.requirement (priced denom) gas) = [] := by
    rw [eq_nil_iff_forall_not_mem]
    intro d hd
    obtain ⟨r, hr, hamount, -⟩ := mem_zeroDenoms.mp hd
    rw [requirement_priced, mem_singleton] at hr
    subst hr
    have hle : (gas : ℤ) ≤ 0 := (le_max_left _ _).trans hamount.le
    omega
  rcases henough with h | ⟨_, hc, -⟩ | ⟨-, h⟩ | ⟨_, hc, -⟩
  · exact hbypass h
  · cases hc
  · exact h hzero
  · cases hc

theorem meets_of_exempt (node : Node) (params : Params) {gas : ℕ} {bypass : Prop} (h : bypass ∨ gas = 0) :
    Meets (node.requirement params gas) [] bypass := by
  refine ⟨by simp, Nat.zero_le _, ?_⟩
  rcases h with hbypass | rfl
  · exact .inl hbypass
  · refine .inr (.inr (.inl ⟨rfl, ?_⟩))
    obtain ⟨gp, prices, hprices⟩ := exists_cons_of_ne_nil (node.prices_ne_nil params)
    refine ne_nil_of_mem (mem_zeroDenoms.mpr ⟨_, mem_map_of_mem (a := gp) ?_, ?_, rfl⟩)
    · rw [hprices]
      exact mem_cons_self
    · simp [feeAt]

def uterp : Bytes := ascii "uterp"

def uthiol : Bytes := ascii "uthiol"

/-- For every application, node, state and accepted transaction: the minimum gas prices are kept, whatever valid ones
the chain has, if and only if the transaction asks no fee of anybody. -/
theorem global_fees_enforced_iff (app : App ρ) (mfd : FeeDecorator) (node : Node) (s : CheckState ρ) (tx : Tx)
    (haccepted : (checkTx app tx s).1.isOk = true) :
    (∀ params, params.validate = .ok () → (checkTx app tx { s with globalFee := params }).1.isOk = true →
        MeetsGlobalFee mfd node params tx) ↔ Exempt mfd tx := by
  constructor
  · intro h
    have hmeets : ∀ denom, validDenom denom = true → MeetsGlobalFee mfd node (priced denom) tx := fun denom hdenom =>
      h (priced denom) (validate_priced hdenom) haccepted
    obtain ⟨feeTx, hfeeTx, huterp⟩ := hmeets uterp (by decide)
    obtain ⟨feeTx', hfeeTx', huthiol⟩ := hmeets uthiol (by decide)
    rw [hfeeTx] at hfeeTx'
    cases hfeeTx'
    -- the first coin of a fee cannot be of both denominations
    have hnil : feeTx.fee = [] := by
      rcases hfee : feeTx.fee with _ | ⟨c, cs⟩
      · rfl
      · rw [hfee] at huterp huthiol
        by_cases hc : c.denom = uterp
        · exact absurd huthiol (not_meets_priced node _ mem_cons_self (hc ▸ by decide) _)
        · exact absurd huterp (not_meets_priced node _ mem_cons_self hc _)
    refine ⟨feeTx, hfeeTx, hnil, ?_⟩
    rw [or_iff_not_imp_left]
    intro hbypass
    by_contra hgas
    rw [hnil] at huterp
    exact not_meets_nil node (fun h0 => hgas (UInt64.toNat_inj.mp h0)) uterp hbypass huterp
  · rintro ⟨feeTx, hfeeTx, hnil, hexempt⟩ params - -
    refine ⟨feeTx, hfeeTx, ?_⟩
    rw [hnil]
    exact meets_of_exempt node params (hexempt.imp_right fun h0 => by rw [h0]; rfl)

/-! ## A transaction without a fee -/

/-- The check of `DeductFeeDecorator`, which asks for the prices of the node only. -/
def checkTxFeeWithValidatorMinGasPrices (minGasPrices : List DecCoin) (isCheckTx : Bool) (tx : Tx) : Outcome Err Unit :=
  match tx.feeTx with
  | none => .error .notFeeTx
  | some feeTx =>
    if isCheckTx && !isZero minGasPrices then do
      let requiredFees ← .ofOption (requiredFees feeTx.gas.toInt64 minGasPrices)
      let anyGTE ← .ofOption (Coins.isAnyGTE feeTx.fee requiredFees)
      Outcome.require anyGTE (.insufficient feeTx.fee requiredFees)
    else .ok ()

namespace Sample

open SmartAccount.Sample

def app (minGasPrices : List DecCoin) : App Unit :=
  { SmartAccount.Sample.app with
    decorator := { decorator with
      deductFeeDecorator :=
        { anteHandle := fun tx _ ctx => returns (!ctx.gasMeter.isPastLimit &&
            (checkTxFeeWithValidatorMinGasPrices minGasPrices ctx.header.isCheckTx tx).isOk) ctx
          metered := by
            intro tx simulate ctx h
            cases hpast : ctx.gasMeter.isPastLimit with
            | false => rfl
            | true => simp [returns, hpast] at h } } }

def node : Node := ⟨[], uterp, ⟨.nil, by simp, by simp⟩, by decide⟩

def mfd : FeeDecorator := ⟨getDefaultBypassFeeMessages, maxBypassMinFeeMsgGasUsage, .insertion⟩

/-- A message of alice that bypasses nothing, with a gas limit of 1000 and no fee. -/
def tx : Tx := txOf [(alice, 1, .other)]

/-- Two messages of a relayer, without a fee. -/
def relay : Tx :=
  { txOf [(alice, 1, .other), (alice, 1, .other)] with
    msgs := [⟨ascii "/ibc.core.client.v1.MsgUpdateClient", some [], some [alice], .other⟩,
      ⟨ascii "/ibc.core.channel.v1.MsgRecvPacket", some [], some [alice], .other⟩] }

/-- A node that checks a transaction, on a chain with a price of one uterp. -/
def checkState : CheckState Unit := ⟨⟨store, { header with isCheckTx := true }, store, .new 1000⟩, priced uterp⟩

end Sample

/-- A relayer bypasses every minimum gas price. -/
theorem relay_accepted : (checkTx (Sample.app Sample.node.minGasPrices) Sample.relay Sample.checkState).1.isOk = true ∧
    MeetsGlobalFee Sample.mfd Sample.node (priced uthiol) Sample.relay := by
  have haccepted : (checkTx (Sample.app Sample.node.minGasPrices) Sample.relay Sample.checkState).1.isOk = true := by
    decide +kernel
  exact ⟨haccepted, (global_fees_enforced_iff _ _ _ _ _ haccepted).mpr ⟨_, rfl, rfl, .inl (by decide +kernel)⟩ _
    (validate_priced (by decide)) haccepted⟩

/-- A message is accepted at a price of one uterp for each unit of gas. -/
theorem free_message_accepted : Sample.checkState.globalFee.validate = .ok () ∧
    Sample.checkState.txContext.ctx.header.isCheckTx = true ∧
    (checkTx (Sample.app Sample.node.minGasPrices) Sample.tx Sample.checkState).1.isOk = true ∧
    ¬ MeetsGlobalFee Sample.mfd Sample.node Sample.checkState.globalFee Sample.tx := by
  refine ⟨by decide +kernel, rfl, by decide +kernel, ?_⟩
  rintro ⟨feeTx, hfeeTx, hmeets⟩
  cases hfeeTx
  exact not_meets_nil Sample.node (by decide) uterp (by decide +kernel) hmeets

/-- The decorator would refuse it. -/
example : Sample.mfd.anteHandle (Sample.node.context (priced uterp)) Sample.tx false =
    .error (.insufficient [] [⟨uterp, 1000⟩]) := by
  decide +kernel

end GlobalFee
