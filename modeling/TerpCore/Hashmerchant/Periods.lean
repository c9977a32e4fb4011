/-
  The arithmetic of the escrow handlers.
-/
import TerpCore.Hashmerchant.Pruning

namespace Hashmerchant

open Lib Outcome

variable {β : Type} {k : Keeper β}

/-! ## Reads and transfers -/

theorem safe_getRegisteredChain {s : Store} {chainUID : Bytes} {Q : RegisteredChain → Prop} :
    (getRegisteredChain s chainUID).Safe Q ↔ ∀ chain, getRegisteredChain s chainUID = .ok chain → Q chain := by
  unfold getRegisteredChain
  split <;> simp

theorem safe_getParams {s : Store} {Q : Params → Prop} :
    (getParams s).Safe Q ↔ ∀ params, getParams s = .ok params → Q params := by
  unfold getParams
  split <;> simp

theorem safe_getEscrowRecord {s : Store} {addr : Bytes} {Q : EscrowRecord → Prop} :
    (getEscrowRecord s addr).Safe Q ↔ ∀ record, getEscrowRecord s addr = .ok record → Q record := by
  unfold getEscrowRecord
  split <;> simp

/-- The bank takes a coin to the module account. -/
def Keeper.Takes (k : Keeper β) (app : β) (sender : Bytes) (c : Coin) (app' : β) : Prop :=
  k.sendCoinsFromAccountToModule app ((k.accAddressFromBech32 sender).getD []) [c] = some app'

theorem safe_takeEscrow {app : β} {sender : Bytes} {c : Coin} (hpos : c.isPositive = true) {Q : β → Prop} :
    (k.takeEscrow app sender c).Safe Q ↔ validDenom c.denom = true ∧ ∀ app', k.Takes app sender c app' → Q app' := by
  have hamount : 0 < c.amount := of_decide_eq_true hpos
  rw [Keeper.takeEscrow, safe_bind, safe_ofOption, newCoins, if_neg hamount.ne']
  by_cases hdenom : validDenom c.denom = true
  · rw [if_pos ⟨hamount, hdenom⟩]
    simp only [Option.some.injEq, exists_eq_left', hdenom, Keeper.Takes]
    cases k.sendCoinsFromAccountToModule app ((k.accAddressFromBech32 sender).getD []) [c] <;> simp
  · simp [hdenom]

theorem exists_add_iff {a b : Coin} :
    (∃ c, a.add b = some c) ↔ a.denom = b.denom ∧ fitsBits 256 (a.amount + b.amount) = true := by
  unfold Coin.add SdkInt.add
  split_ifs with hdenom hfits <;> simp [*]

/-! ## Periods -/

/-- The blocks bought are computed, and added to a height, without loss exactly if the minimum is not zero and the
height fits 64 bits. -/
theorem blocksBought_exact_iff {p : Params} (hp : p.validate = .ok ()) {c : Coin} (hpos : c.isPositive = true)
    (height : UInt64) :
    (∃ blocks, p.blocksBought c = some blocks ∧ (height + blocks).toNat = height.toNat + p.exactBlocks c) ↔
      p.minEscrowAmount ≠ 0 ∧ height.toNat + p.exactBlocks c < 2 ^ 64 := by
  simp only [Params.validate, bind_eq_ok, require_eq_ok, decide_eq_true_eq, bne_iff_ne] at hp
  obtain ⟨_, -, _, hinterval, _, -, hmin⟩ := hp
  have hamount : 0 ≤ c.amount := (of_decide_eq_true hpos).le
  constructor
  · rintro ⟨blocks, hblocks, hexact⟩
    refine ⟨?_, hexact ▸ UInt64.toNat_lt _⟩
    rintro hzero
    simp [Params.blocksBought, SdkInt.quo, if_pos hzero] at hblocks
  · rintro ⟨hzero, hrange⟩
    have hquo : SdkInt.quo c.amount p.minEscrowAmount = some (c.amount / p.minEscrowAmount) := by
      rw [SdkInt.quo, if_neg hzero, Int.tdiv_eq_ediv_of_nonneg hamount]
    have hperiods : (c.amount / p.minEscrowAmount).toNat ≤ p.exactBlocks c := by
      refine Nat.le_mul_of_pos_right _ (Nat.pos_of_ne_zero fun h0 => hinterval ?_)
      exact UInt64.toNat_inj.mp h0
    have hnonneg : 0 ≤ c.amount / p.minEscrowAmount := Int.ediv_nonneg hamount hmin
    have huint : SdkInt.uint64 (c.amount / p.minEscrowAmount) =
        some (UInt64.ofNat (c.amount / p.minEscrowAmount).toNat) := if_pos ⟨hnonneg, by omega⟩
    have hblocks : p.blocksBought c = some (UInt64.ofNat (c.amount / p.minEscrowAmount).toNat * p.pruneInterval) := by
      simp [Params.blocksBought, hquo, huint]
    refine ⟨_, hblocks, ?_⟩
    rw [UInt64.toNat_add, toNat_blocksBought hpos hblocks (by omega), Nat.mod_eq_of_lt hrange]

/-! ## Handlers -/

variable {s : State β}

/-- A registration returns or fails, and the height that it stores is exact. -/
def RegistersExactly (k : Keeper β) (blockHeight : UInt64) (s : State β) (msg : MsgRegisterContract) : Prop :=
  (k.registerContract blockHeight s msg).Safe fun s' =>
    ∃ params r, getParams s.store = .ok params ∧ getEscrowRecord s'.store msg.contractAddr = .ok r ∧
      r.paidUntilHeight.toNat = blockHeight.toNat + params.exactBlocks msg.escrow

/-- A refill returns or fails, and the height that it stores is exact. -/
def RefillsExactly (k : Keeper β) (s : State β) (msg : MsgRefillEscrow) : Prop :=
  (k.refillEscrow s msg).Safe fun s' =>
    ∃ params record r, getParams s.store = .ok params ∧ getEscrowRecord s.store msg.contractAddr = .ok record ∧
      getEscrowRecord s'.store record.contractAddr = .ok r ∧
      r.paidUntilHeight.toNat = record.paidUntilHeight.toNat + params.exactBlocks msg.amount

/-- If a registration comes so far, the denomination is valid, the minimum is not zero, and the height fits. -/
def RegisterFits (k : Keeper β) (blockHeight : UInt64) (s : State β) (msg : MsgRegisterContract) : Prop :=
  ∀ chain, getRegisteredChain s.store msg.chainUid = .ok chain → chain.enabled = true →
    ∀ params, getParams s.store = .ok params → msg.escrow.denom = params.escrowDenom →
      params.minEscrowAmount ≤ msg.escrow.amount →
      validDenom msg.escrow.denom = true ∧ ∀ app', k.Takes s.app msg.sender msg.escrow app' →
        params.minEscrowAmount ≠ 0 ∧ blockHeight.toNat + params.exactBlocks msg.escrow < 2 ^ 64

/-- If a refill comes so far, the denomination is valid and that of the record, the minimum is not zero, and height
and amount fit. -/
def RefillFits (k : Keeper β) (s : State β) (msg : MsgRefillEscrow) : Prop :=
  ∀ record, getEscrowRecord s.store msg.contractAddr = .ok record →
    ∀ params, getParams s.store = .ok params → msg.amount.denom = params.escrowDenom →
      validDenom msg.amount.denom = true ∧ ∀ app', k.Takes s.app msg.sender msg.amount app' →
        params.minEscrowAmount ≠ 0 ∧ record.paidUntilHeight.toNat + params.exactBlocks msg.amount < 2 ^ 64 ∧
        record.amount.denom = msg.amount.denom ∧
        fitsBits 256 (record.amount.amount + msg.amount.amount) = true

section

variable (hvalid : ∀ params, getParams s.store = .ok params → params.validate = .ok ())

include hvalid

theorem registersExactly_iff (blockHeight : UInt64) {msg : MsgRegisterContract} (hpos : msg.escrow.isPositive = true) :
    RegistersExactly k blockHeight s msg ↔ RegisterFits k blockHeight s msg := by
  unfold RegistersExactly RegisterFits Keeper.registerContract
  simp only [safe_bind, safe_getRegisteredChain, safe_require, safe_getParams, beq_iff_eq, Bool.not_eq_true',
    decide_eq_false_iff_not, Int.not_lt, safe_takeEscrow hpos, pure_eq, safe_ok, getEscrowRecord_set]
  refine forall₃_congr fun chain _ _ => forall₄_congr fun params hparams _ _ =>
    and_congr_right fun _ => forall₂_congr fun app' _ => ?_
  rw [← blocksBought_exact_iff (hvalid _ hparams) hpos]
  simp [hparams]

theorem refillsExactly_iff {msg : MsgRefillEscrow} (hpos : msg.amount.isPositive = true) :
    RefillsExactly k s msg ↔ RefillFits k s msg := by
  unfold RefillsExactly RefillFits Keeper.refillEscrow
  simp only [safe_bind, safe_getEscrowRecord, safe_require, safe_getParams, beq_iff_eq,
    safe_takeEscrow hpos, safe_ofOption, pure_eq, safe_ok, getEscrowRecord_set]
  refine forall₂_congr fun record hrecord => forall₃_congr fun params hparams _ =>
    and_congr_right fun _ => forall₂_congr fun app' _ => ?_
  rw [← and_assoc, ← blocksBought_exact_iff (hvalid _ hparams) hpos]
  simp only [← exists_add_iff, hparams, hrecord, if_true, ok.injEq, exists_eq_left', exists_and_left]
  constructor
  · rintro ⟨blocks, hblocks, amount, hadd, hexact⟩
    exact ⟨⟨blocks, hblocks, hexact⟩, amount, hadd⟩
  · rintro ⟨⟨blocks, hblocks, hexact⟩, amount, hadd⟩
    exact ⟨blocks, hblocks, amount, hadd, hexact⟩

end

/-- Under valid parameters, a message that passes its own check is handled without a panic and with the exact height
if and only if the amounts fit. -/
theorem escrow_exact_iff (s : State β) (hvalid : ∀ params, getParams s.store = .ok params → params.validate = .ok ()) :
    (∀ blockHeight (msg : MsgRegisterContract), msg.validateBasic k = .ok () →
      (RegistersExactly k blockHeight s msg ↔ RegisterFits k blockHeight s msg)) ∧
    ∀ msg : MsgRefillEscrow, msg.validateBasic k = .ok () → (RefillsExactly k s msg ↔ RefillFits k s msg) := by
  constructor
  · intro blockHeight msg hbasic
    simp only [MsgRegisterContract.validateBasic, bind_eq_ok, require_eq_ok] at hbasic
    obtain ⟨_, -, _, -, _, -, hpos⟩ := hbasic
    exact registersExactly_iff hvalid blockHeight hpos
  · intro msg hbasic
    simp only [MsgRefillEscrow.validateBasic, bind_eq_ok, require_eq_ok] at hbasic
    obtain ⟨_, -, _, -, hpos⟩ := hbasic
    exact refillsExactly_iff hvalid hpos

/-- Five periods are bought under the default parameters. -/
theorem five_periods_exact :
    let msg : MsgRegisterContract := ⟨sampleSender, ascii "a", ascii "c", [], ⟨ascii "uterp", 5000000⟩⟩
    (∀ params, getParams escrowStart.store = .ok params → params.validate = .ok ()) ∧
      msg.validateBasic escrowKeeper = .ok () ∧ RegistersExactly escrowKeeper 10 escrowStart msg := by
  intro msg
  have hdefault : ∀ params, getParams escrowStart.store = .ok params → params = defaultParams :=
    fun params h => (ok.inj h).symm
  have hvalid : ∀ params, getParams escrowStart.store = .ok params → params.validate = .ok () := by
    intro params h
    rw [hdefault params h]
    rfl
  have hbasic : msg.validateBasic escrowKeeper = .ok () := by decide
  refine ⟨hvalid, hbasic, ((escrow_exact_iff escrowStart hvalid).1 10 msg hbasic).mpr ?_⟩
  intro chain hchain henabled params h hdenom hmin
  rw [hdefault params h]
  exact ⟨by decide, fun app' happ => by decide⟩

/-- A minimum of zero passes the check of the parameters, and every registration panics.  Under the default ones a
large amount is accepted, and the height wraps around. -/
theorem zero_minimum_panics :
    let params := { defaultParams with minEscrowAmount := 0 }
    let start : State ℤ := ⟨setParams escrowStart.store params, 0⟩
    let msg : MsgRegisterContract := ⟨sampleSender, ascii "a", ascii "c", [], ⟨ascii "uterp", 5000000⟩⟩
    let large : MsgRegisterContract := { msg with escrow := ⟨ascii "uterp", 1000000 * 2 ^ 61⟩ }
    params.validate = .ok () ∧ getParams start.store = .ok params ∧ msg.validateBasic escrowKeeper = .ok () ∧
      escrowKeeper.registerContract 10 start msg = .panicked ∧ ¬ RegistersExactly escrowKeeper 10 start msg ∧
      (getEscrowRecord ((escrowKeeper.registerContract 10 escrowStart large).orElse escrowStart).store
        (ascii "a")) = .ok ⟨ascii "a", large.escrow, 10, 0⟩ := by
  intro params start msg large
  have hpanic : escrowKeeper.registerContract 10 start msg = .panicked := rfl
  refine ⟨rfl, rfl, by decide, hpanic, ?_, by decide +kernel⟩
  exact id

end Hashmerchant
