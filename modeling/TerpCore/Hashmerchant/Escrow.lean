/-
  Escrow accounting over whole runs.
-/
import TerpCore.Hashmerchant.MsgServer

namespace Hashmerchant

open Lib Outcome KVStore

variable {β : Type} {k : Keeper β}

/-! ## What the handlers do -/

/-- `received` is what the module account has been sent, by denomination: a successful transfer adds its
coins. -/
def Receives (k : Keeper β) (received : β → Bytes → ℤ) : Prop :=
  ∀ app sender coins app', k.sendCoinsFromAccountToModule app sender coins = some app' →
    ∀ denom, received app' denom = received app denom + (coins.map fun c => c.of denom).sum

theorem takeEscrow_received {received : β → Bytes → ℤ} (hbank : Receives k received) {app app' : β}
    {sender : Bytes} {c : Coin} (h : k.takeEscrow app sender c = .ok app') (denom : Bytes) :
    received app' denom = received app denom + c.of denom := by
  obtain ⟨coins, hcoins, hsend⟩ := bind_eq_ok.mp h
  have hsum : (coins.map fun c => c.of denom).sum = c.of denom :=
    amountOf_newCoins (ofOption_eq_ok.mp hcoins) denom
  cases happ : k.sendCoinsFromAccountToModule app ((k.accAddressFromBech32 sender).getD []) coins with
  | none => simp [happ] at hsend
  | some app'' =>
    simp only [happ, ok.injEq] at hsend
    rw [← hsend, hbank _ _ _ _ happ denom, hsum]

variable {s s' : State β}

theorem registerContract_eq_ok {blockHeight : UInt64} {msg : MsgRegisterContract}
    (h : k.registerContract blockHeight s msg = .ok s') :
    ∃ params app blocks, getParams s.store = .ok params ∧
      msg.escrow.denom = params.escrowDenom ∧ k.takeEscrow s.app msg.sender msg.escrow = .ok app ∧
      params.blocksBought msg.escrow = some blocks ∧
      s' = ⟨setEscrowRecord
        (setRegisteredContract s.store ⟨msg.contractAddr, msg.chainUid, msg.substoreKeys, true⟩)
        ⟨msg.contractAddr, msg.escrow, blockHeight + blocks, 0⟩, app⟩ := by
  simp only [Keeper.registerContract, bind_eq_ok, require_eq_ok, ofOption_eq_ok, beq_iff_eq] at h
  obtain ⟨chain, -, -, -, params, hparams, -, hdenom, -, -, app, happ, blocks, hblocks, hs⟩ := h
  exact ⟨params, app, blocks, hparams, hdenom, happ, hblocks, (ok.inj hs).symm⟩

theorem refillEscrow_eq_ok {msg : MsgRefillEscrow} (h : k.refillEscrow s msg = .ok s') :
    ∃ record params app blocks, getEscrowRecord s.store msg.contractAddr = .ok record ∧
      getParams s.store = .ok params ∧ msg.amount.denom = params.escrowDenom ∧
      k.takeEscrow s.app msg.sender msg.amount = .ok app ∧
      params.blocksBought msg.amount = some blocks ∧ record.amount.denom = msg.amount.denom ∧
      s' = ⟨setEscrowRecord s.store { record with
        paidUntilHeight := record.paidUntilHeight + blocks
        amount := ⟨record.amount.denom, record.amount.amount + msg.amount.amount⟩ }, app⟩ := by
  simp only [Keeper.refillEscrow, bind_eq_ok, require_eq_ok, ofOption_eq_ok, beq_iff_eq] at h
  obtain ⟨record, hrecord, params, hparams, -, hdenom, app, happ, blocks, hblocks, amount, hamount, hs⟩ := h
  unfold Coin.add SdkInt.add at hamount
  split_ifs at hamount with hsame hfits
  · cases hamount
    exact ⟨record, params, app, blocks, hrecord, hparams, hdenom, happ, hblocks, hsame, (ok.inj hs).symm⟩
  · cases hamount

/-- Nothing the module accounts for changes: the parameters and the escrow records. -/
structure SameAccounts (s s' : Store) : Prop where
  params : s'.get keyPrefixParams = s.get keyPrefixParams
  escrow : ∀ addr, s'.get (keyEscrow addr) = s.get (keyEscrow addr)

theorem SameAccounts.trans {s s' s'' : Store} (h : SameAccounts s s') (h' : SameAccounts s' s'') : SameAccounts s s'' :=
  ⟨h'.params.trans h.params, fun addr => (h'.escrow addr).trans (h.escrow addr)⟩

theorem sameAccounts_set {s : Store} {key : Bytes} (v : Value) (hparams : key.head? ≠ some 0x05)
    (hescrow : key.head? ≠ some 0x03) : SameAccounts s (s.set key v) := by
  constructor
  · refine get_set_of_ne s v ?_
    rintro rfl
    exact hparams rfl
  · intro addr
    refine get_set_of_ne s v ?_
    rintro rfl
    exact hescrow rfl

theorem sameAccounts_setRegisteredContract (s : Store) (c : RegisteredContract) :
    SameAccounts s (setRegisteredContract s c) := by
  refine sameAccounts_set _ ?_ ?_ <;> simp [keyRegisteredContract, keyPrefixRegisteredContracts]

theorem sameAccounts_disableContract (s : Store) (addr : Bytes) : SameAccounts s (disableContract s addr) := by
  unfold disableContract
  split
  · exact sameAccounts_setRegisteredContract s _
  · exact ⟨rfl, fun _ => rfl⟩

theorem sameAccounts_foldl_disableContract (s : Store) (addrs : List Bytes) :
    SameAccounts s (addrs.foldl disableContract s) :=
  List.foldlRecOn addrs _ ⟨rfl, fun _ => rfl⟩ fun t h addr _ => h.trans (sameAccounts_disableContract t addr)

theorem endBlocker_eq_ok {blockHeight : UInt64} {s s' : Store}
    (h : endBlocker blockHeight s = .ok s') : SameAccounts s s' := by
  simp only [endBlocker, bind_eq_ok] at h
  obtain ⟨params, -, lastPrune, -, h⟩ := h
  split_ifs at h with hdue
  · cases h
    refine (sameAccounts_foldl_disableContract s _).trans (sameAccounts_set _ ?_ ?_) <;>
      simp [keyPrefixPruneEpoch]
  · cases h
    exact ⟨rfl, fun _ => rfl⟩

/-- What a successful operation does to the accounts: it pays into a new record or one that exists, or leaves them
alone. -/
theorem exec_cases {op : Op} (h : k.exec s op = .ok s') :
    (∃ blockHeight msg, op = .registerContract blockHeight msg ∧ k.registerContract blockHeight s msg = .ok s') ∨
    (∃ msg, op = .refillEscrow msg ∧ k.refillEscrow s msg = .ok s') ∨
    (SameAccounts s.store s'.store ∧ s'.app = s.app ∧
      ((∃ msg, op = .registerChain msg) ∨ ∃ blockHeight, op = .endBlock blockHeight)) := by
  cases op with
  | registerChain msg =>
    obtain ⟨-, -, h⟩ := bind_eq_ok.mp h
    simp only [Keeper.registerChain, bind_eq_ok] at h
    obtain ⟨-, -, -, -, h⟩ := h
    cases h
    refine .inr (.inr ⟨sameAccounts_set _ ?_ ?_, rfl, .inl ⟨msg, rfl⟩⟩) <;>
      simp [keyRegisteredChain, keyPrefixRegisteredChains]
  | registerContract blockHeight msg =>
    obtain ⟨-, -, h⟩ := bind_eq_ok.mp h
    exact .inl ⟨blockHeight, msg, rfl, h⟩
  | refillEscrow msg =>
    obtain ⟨-, -, h⟩ := bind_eq_ok.mp h
    exact .inr (.inl ⟨msg, rfl, h⟩)
  | endBlock blockHeight =>
    obtain ⟨store, hstore, h⟩ := bind_eq_ok.mp h
    cases h
    exact .inr (.inr ⟨endBlocker_eq_ok hstore, rfl, .inr ⟨blockHeight, rfl⟩⟩)

/-! ## Accounts -/

def recorded (s : Store) (addr : Bytes) : ℤ :=
  match s.get (keyEscrow addr) with
  | some (.escrow r) => r.amount.amount
  | _ => 0

/-- The amount all contracts have on record, in a denomination. -/
def totalRecorded (s : Store) (denom : Bytes) : ℤ :=
  ((escrowRecords s).map fun r => r.amount.of denom).sum

/-- Every escrow row is a record of its own contract, in the denomination of the parameters. -/
structure Booked (params : Params) (s : State β) : Prop where
  current : getParams s.store = .ok params
  row : ∀ addr v, s.store.get (keyEscrow addr) = some v →
    ∃ r, v = .escrow r ∧ r.contractAddr = addr ∧ r.amount.denom = params.escrowDenom

/-- `c` is paid into the record of `addr`, and no other record changes. -/
structure PaysInto (addr : Bytes) (c : Coin) (s s' : Store) : Prop where
  params : s'.get keyPrefixParams = s.get keyPrefixParams
  others : ∀ addr', addr ≠ addr' → s'.get (keyEscrow addr') = s.get (keyEscrow addr')
  record : ∃ r, s'.get (keyEscrow addr) = some (.escrow r) ∧ r.contractAddr = addr ∧
    r.amount = ⟨c.denom, recorded s addr + c.amount⟩ ∧
    ∀ r', s.get (keyEscrow addr) = some (.escrow r') → r'.paidUntilHeight ≤ r.paidUntilHeight
  total : ∀ denom, totalRecorded s' denom = totalRecorded s denom + c.of denom

/-- The contract an operation pays for, and what it pays. -/
def Op.payment : Op → Option (Bytes × Coin)
  | .registerContract _ msg => some (msg.contractAddr, msg.escrow)
  | .refillEscrow msg => some (msg.contractAddr, msg.amount)
  | _ => none

/-- The height a refilled record is paid until fits 64 bits. -/
def refillInRange (s : Store) (msg : MsgRefillEscrow) : Bool :=
  match getEscrowRecord s msg.contractAddr, getParams s with
  | .ok record, .ok params => (params.blocksBought msg.amount).all fun blocks =>
    record.paidUntilHeight.toNat + blocks.toNat < 2 ^ 64
  | _, _ => true

/-- The condition on a step: a contract is registered once, and a refill does not wrap around. -/
def OnceAndInRange (s : State β) : Op → Prop
  | .registerContract _ msg => s.store.get (keyEscrow msg.contractAddr) = none
  | .refillEscrow msg => refillInRange s.store msg = true
  | _ => True

instance (s : State β) : ∀ op, Decidable (OnceAndInRange s op)
  | .registerChain _ => isTrue trivial
  | .registerContract _ _ => inferInstanceAs (Decidable (s.store.get _ = none))
  | .refillEscrow _ => inferInstanceAs (Decidable (_ = true))
  | .endBlock _ => isTrue trivial

theorem getEscrowRecord_eq_ok {s : Store} {addr : Bytes} {r : EscrowRecord} :
    getEscrowRecord s addr = .ok r ↔ s.get (keyEscrow addr) = some (.escrow r) := by
  unfold getEscrowRecord
  split <;> simp_all

theorem getParams_congr {s s' : Store} (h : s'.get keyPrefixParams = s.get keyPrefixParams) :
    getParams s' = getParams s := by
  rw [getParams, getParams, h]

theorem keyEscrow_inj {addr addr' : Bytes} : keyEscrow addr = keyEscrow addr' ↔ addr = addr' := by
  rw [keyEscrow, keyEscrow, List.append_cancel_left_eq]

theorem totalRecorded_eq (s : Store) (denom : Bytes) :
    totalRecorded s denom = ((s.iterator keyPrefixEscrow).map fun
      | (_, .escrow r) => r.amount.of denom
      | _ => 0).sum := by
  rw [totalRecorded, escrowRecords]
  induction s.iterator keyPrefixEscrow with
  | nil => rfl
  | cons e rows ih =>
    obtain ⟨addr, v⟩ := e
    cases v <;> simp [ih]

theorem totalRecorded_congr {s s' : Store}
    (h : ∀ addr, s'.get (keyEscrow addr) = s.get (keyEscrow addr)) (denom : Bytes) :
    totalRecorded s' denom = totalRecorded s denom := by
  rw [totalRecorded, totalRecorded, escrowRecords, escrowRecords, iterator_congr h]

theorem totalRecorded_setEscrowRecord (s : Store) (r : EscrowRecord) (denom : Bytes) :
    totalRecorded (setEscrowRecord s r) denom = totalRecorded s denom -
      (match s.get (keyEscrow r.contractAddr) with
        | some (.escrow r') => r'.amount.of denom
        | _ => 0) + r.amount.of denom := by
  rw [totalRecorded_eq, totalRecorded_eq, setEscrowRecord, keyEscrow, sum_iterator_set]
  cases s.get (keyPrefixEscrow ++ r.contractAddr) with
  | none => rfl
  | some v => cases v <;> rfl

theorem paysInto_setEscrowRecord {s : Store} (r : EscrowRecord) {c : Coin}
    (hamount : r.amount = ⟨c.denom, recorded s r.contractAddr + c.amount⟩)
    (hold : ∀ v, s.get (keyEscrow r.contractAddr) = some v →
      ∃ r', v = .escrow r' ∧ r'.amount.denom = c.denom ∧ r'.paidUntilHeight ≤ r.paidUntilHeight) :
    PaysInto r.contractAddr c s (setEscrowRecord s r) where
  params := get_set_of_ne _ _ (by simp [keyEscrow, keyPrefixEscrow, keyPrefixParams])
  others addr' hne := get_set_of_ne _ _ (mt keyEscrow_inj.mp hne)
  record := by
    refine ⟨r, get_set_self _ _ _, rfl, hamount, fun r' hr' => ?_⟩
    obtain ⟨r'', hv, -, hle⟩ := hold _ hr'
    cases hv
    exact hle
  total denom := by
    rw [totalRecorded_setEscrowRecord, hamount]
    cases hrow : s.get (keyEscrow r.contractAddr) with
    | none => simp [recorded, hrow]
    | some v =>
      obtain ⟨r', rfl, hdenom, -⟩ := hold v hrow
      simp only [recorded, hrow, Coin.of, hdenom]
      split_ifs <;> ring

theorem PaysInto.of_sameAccounts {addr : Bytes} {c : Coin} {s s' s'' : Store}
    (h : SameAccounts s s') (h' : PaysInto addr c s' s'') : PaysInto addr c s s'' where
  params := h'.params.trans h.params
  others addr' hne := (h'.others addr' hne).trans (h.escrow addr')
  record := by
    have hrec : recorded s' addr = recorded s addr := by
      rw [recorded, recorded, h.escrow]
    rw [← hrec, ← h.escrow]
    exact h'.record
  total denom := by
    rw [h'.total, totalRecorded_congr h.escrow]

/-! ## Steps -/

variable {params : Params}

theorem step_cases (hbooked : Booked params s) {op : Op} (hop : OnceAndInRange s op) :
    (∃ addr c sender, op.payment = some (addr, c) ∧ (k.exec s op).isOk = true ∧
      c.denom = params.escrowDenom ∧ PaysInto addr c s.store (k.step s op).store ∧
      k.takeEscrow s.app sender c = .ok (k.step s op).app) ∨
    (SameAccounts s.store (k.step s op).store ∧ (k.step s op).app = s.app ∧
      (op.payment = none ∨ (k.exec s op).isOk = false)) := by
  unfold Keeper.step
  cases hexec : k.exec s op with
  | error | panicked => exact .inr ⟨⟨rfl, fun _ => rfl⟩, rfl, .inr rfl⟩
  | ok s' =>
    rcases exec_cases hexec with ⟨blockHeight, msg, rfl, h⟩ | ⟨msg, rfl, h⟩ | ⟨hsame, happ, hop'⟩
    · obtain ⟨params', app, blocks, hparams, hdenom, happ, -, rfl⟩ := registerContract_eq_ok h
      obtain rfl : params = params' := Outcome.ok.inj (hbooked.current.symm.trans hparams)
      have hfresh : s.store.get (keyEscrow msg.contractAddr) = none := hop
      refine .inl ⟨msg.contractAddr, msg.escrow, msg.sender, rfl, rfl, hdenom, ?_, happ⟩
      have hcontract := sameAccounts_setRegisteredContract s.store
        ⟨msg.contractAddr, msg.chainUid, msg.substoreKeys, true⟩
      refine PaysInto.of_sameAccounts hcontract (paysInto_setEscrowRecord
        ⟨msg.contractAddr, msg.escrow, blockHeight + blocks, 0⟩ ?_ ?_)
      · simp [recorded, hcontract.escrow, hfresh]
      · intro v hv
        rw [hcontract.escrow, hfresh] at hv
        cases hv
    · obtain ⟨record, params', app, blocks, hrecord, hparams, hdenom, happ, hblocks, hsame, rfl⟩ := refillEscrow_eq_ok h
      obtain rfl : params = params' := ok.inj (hbooked.current.symm.trans hparams)
      have hrow := getEscrowRecord_eq_ok.mp hrecord
      obtain ⟨r, hr, haddr, -⟩ := hbooked.row _ _ hrow
      cases hr
      have hinRange : record.paidUntilHeight.toNat + blocks.toNat < 2 ^ 64 := by
        have hrange : refillInRange s.store msg = true := hop
        simpa [refillInRange, hrecord, hparams, hblocks] using hrange
      refine .inl ⟨msg.contractAddr, msg.amount, msg.sender, rfl, rfl, hdenom, ?_, happ⟩
      rw [← haddr] at hrow ⊢
      refine paysInto_setEscrowRecord { record with
        paidUntilHeight := record.paidUntilHeight + blocks
        amount := ⟨record.amount.denom, record.amount.amount + msg.amount.amount⟩ } ?_ ?_
      · simp [recorded, hrow, hsame]
      · intro v hv
        cases hrow.symm.trans hv
        refine ⟨record, rfl, hsame, ?_⟩
        rw [UInt64.le_iff_toNat_le, UInt64.toNat_add, Nat.mod_eq_of_lt hinRange]
        exact Nat.le_add_right _ _
    · refine .inr ⟨hsame, happ, .inl ?_⟩
      rcases hop' with ⟨msg, rfl⟩ | ⟨blockHeight, rfl⟩ <;> rfl

theorem booked_step (hbooked : Booked params s) {op : Op} (hop : OnceAndInRange s op) :
    Booked params (k.step s op) := by
  rcases step_cases hbooked hop with ⟨addr, c, sender, -, -, hdenom, hpays, -⟩ | ⟨hsame, -, -⟩
  · refine ⟨(getParams_congr hpays.params).trans hbooked.current, fun addr' v hv => ?_⟩
    by_cases haddr : addr = addr'
    · subst haddr
      obtain ⟨r, hr, hcontract, hamount, -⟩ := hpays.record
      refine ⟨r, Option.some.inj (hv.symm.trans hr), hcontract, ?_⟩
      rw [hamount, hdenom]
    · rw [hpays.others addr' haddr] at hv
      exact hbooked.row addr' v hv
  · refine ⟨(getParams_congr hsame.params).trans hbooked.current, fun addr v hv => ?_⟩
    rw [hsame.escrow] at hv
    exact hbooked.row addr v hv

/-- What a successful operation pays for a contract. -/
def Keeper.paid (k : Keeper β) (addr : Bytes) (s : State β) (op : Op) : ℤ :=
  match op.payment, (k.exec s op).isOk with
  | some (addr', c), true => if addr' = addr then c.amount else 0
  | _, _ => 0

theorem recorded_step (hbooked : Booked params s) {op : Op} (hop : OnceAndInRange s op) (addr : Bytes) :
    recorded (k.step s op).store addr = recorded s.store addr + k.paid addr s op := by
  rcases step_cases (k := k) hbooked hop with
    ⟨addr', c, sender, hpayment, hok, -, hpays, -⟩ | ⟨hsame, -, hnone⟩
  · simp only [Keeper.paid, hpayment, hok]
    by_cases haddr : addr' = addr
    · subst haddr
      obtain ⟨r, hr, -, hamount, -⟩ := hpays.record
      rw [recorded, hr]
      simp [hamount]
    · rw [if_neg haddr, recorded, recorded, hpays.others addr haddr, add_zero]
  · have hpaid : k.paid addr s op = 0 := by
      rcases hnone with hnone | hfailed
      · simp [Keeper.paid, hnone]
      · simp [Keeper.paid, hfailed]
    rw [hpaid, recorded, recorded, hsame.escrow, add_zero]

/-- The records grow by what the module account receives. -/
def Matched (received : β → Bytes → ℤ) (denom : Bytes) (s s' : State β) : Prop :=
  totalRecorded s'.store denom - totalRecorded s.store denom =
    received s'.app denom - received s.app denom

theorem matched_step {received : β → Bytes → ℤ} (hbank : Receives k received)
    (hbooked : Booked params s) {op : Op} (hop : OnceAndInRange s op) (denom : Bytes) :
    Matched received denom s (k.step s op) := by
  unfold Matched
  rcases step_cases hbooked hop with ⟨addr, c, sender, -, -, -, hpays, happ⟩ | ⟨hsame, happ, -⟩
  · rw [hpays.total, takeEscrow_received hbank happ denom]
    ring
  · rw [happ, totalRecorded_congr hsame.escrow, sub_self, sub_self]

/-- No record disappears, and none is paid until an earlier height. -/
def Extends (s s' : State β) : Prop :=
  ∀ addr r, getEscrowRecord s.store addr = .ok r →
    ∃ r', getEscrowRecord s'.store addr = .ok r' ∧ r.paidUntilHeight ≤ r'.paidUntilHeight

theorem Extends.trans {s s' s'' : State β} (h : Extends s s') (h' : Extends s' s'') : Extends s s'' := by
  intro addr r hr
  obtain ⟨r', hr', hle⟩ := h addr r hr
  obtain ⟨r'', hr'', hle'⟩ := h' addr r' hr'
  exact ⟨r'', hr'', UInt64.le_trans hle hle'⟩

theorem extends_step (hbooked : Booked params s) {op : Op} (hop : OnceAndInRange s op) : Extends s (k.step s op) := by
  intro addr r hr
  simp only [getEscrowRecord_eq_ok] at hr ⊢
  rcases step_cases hbooked hop with ⟨addr', c, sender, -, -, -, hpays, -⟩ | ⟨hsame, -, -⟩
  · by_cases haddr : addr' = addr
    · subst haddr
      obtain ⟨r', hr', -, -, hle⟩ := hpays.record
      exact ⟨r', hr', hle r hr⟩
    · exact ⟨r, (hpays.others addr haddr).trans hr, UInt64.le_refl _⟩
  · exact ⟨r, (hsame.escrow addr).trans hr, UInt64.le_refl _⟩

/-! ## Runs -/

/-- What the successful messages of a run paid for a contract. -/
def Keeper.escrowed (k : Keeper β) (addr : Bytes) (s : State β) (ops : List Op) : ℤ :=
  gathered k.step (k.paid addr) s ops

/-- The accounts of a run agree: a record holds what was paid for its contract, all together what the module account
received, and no record is ever paid until an earlier height. -/
structure Accounted (k : Keeper β) (params : Params) (received : β → Bytes → ℤ) (s : State β)
    (ops : List Op) : Prop where
  amount : ∀ addr r, getEscrowRecord (run k.step s ops).store addr = .ok r →
    r.amount = ⟨params.escrowDenom, k.escrowed addr s ops⟩
  unrecorded : ∀ addr, (∀ r, getEscrowRecord (run k.step s ops).store addr ≠ .ok r) →
    k.escrowed addr s ops = 0
  total : ∀ denom, totalRecorded (run k.step s ops).store denom =
    received (run k.step s ops).app denom - received s.app denom
  paidUntil : ∀ before middle after, ops = before ++ middle ++ after →
    Extends (run k.step s before) (run k.step s (before ++ middle))

/-- **Escrow accounting.** From a state without escrow records and with any parameters, the accounts of
every run agree in which no contract is registered twice and no refill wraps a height. -/
theorem accounted_of_once {received : β → Bytes → ℤ} (hbank : Receives k received)
    (hparams : getParams s.store = .ok params)
    (hempty : ∀ addr, s.store.get (keyEscrow addr) = none) (ops : List Op)
    (hops : Along k.step OnceAndInRange s ops) : Accounted k params received s ops := by
  have hstep : ∀ s op, Booked params s → OnceAndInRange s op → Booked params (k.step s op) :=
    fun s op hs hop => booked_step hs hop
  have hbooked : Booked params s := by
    refine ⟨hparams, fun addr v hv => ?_⟩
    simp [hempty] at hv
  have hrecorded : ∀ addr, recorded (run k.step s ops).store addr = k.escrowed addr s ops := by
    intro addr
    have hzero : recorded s.store addr = 0 := by rw [recorded, hempty]
    have hrun := run_gathered hstep (f := fun s => recorded s.store addr)
      (fun s op hs hop => recorded_step hs hop addr) s ops hops hbooked
    rw [hrun, hzero, zero_add, Keeper.escrowed]
  have hfinal := run_invariant hstep s ops hops hbooked
  constructor
  · intro addr r hr
    rw [← hrecorded addr]
    have hrow := getEscrowRecord_eq_ok.mp hr
    obtain ⟨r', hr', -, hdenom⟩ := hfinal.row addr _ hrow
    cases hr'
    rw [recorded, hrow, ← hdenom]
  · intro addr hnone
    rw [← hrecorded addr, recorded]
    split
    · next r hr => exact absurd (getEscrowRecord_eq_ok.mpr hr) (hnone r)
    · rfl
  · intro denom
    have hmatched : Matched received denom s (run k.step s ops) := by
      refine run_related hstep (fun s => ?_) (fun s s' s'' h h' => ?_)
        (fun s op hs hop => matched_step hbank hs hop denom) s ops hops hbooked
      · simp [Matched]
      · unfold Matched at *
        omega
    have hzero : totalRecorded s.store denom = 0 := by
      rw [totalRecorded_congr (s := .empty) fun addr => by rw [hempty, get_empty]]
      rfl
    unfold Matched at hmatched
    rwa [hzero, sub_zero] at hmatched
  · rintro before middle after rfl
    obtain ⟨hops, -⟩ := hops.of_append
    obtain ⟨hbefore, hmiddle⟩ := hops.of_append
    rw [run_append]
    exact run_related hstep (fun s addr r hr => ⟨r, hr, UInt64.le_refl _⟩)
      (fun s s' s'' h h' => h.trans h') (fun s op hs hop => extends_step hs hop) _ _ hmiddle
      (run_invariant hstep s before hbefore hbooked)

/-! One chain `c`, and a contract `a` registered for five minimum amounts at height 10, refilled with
one, and registered again for one at height 11.  The bank of the example keeps the balance of the
module account, and moves coins of one denomination. -/

def sampleSender : Bytes := ascii "terp1qyqszqgpqyqszqgpqyqszqgpqyqszqgp4egj80"

def escrowKeeper : Keeper ℤ where
  authority := sampleSender
  unmarshalVoteExtension _ := none
  unmarshalCommit _ := none
  unmarshalBundle _ := none
  marshalSources _ := []
  unmarshalSources _ := none
  sha256 _ := []
  ed25519Verify _ _ _ := false
  sliceSort := .insertion
  accAddressFromBech32 a := if a = sampleSender then some (List.replicate 20 1) else none
  wasmSudo s _ _ _ := .ok s
  sendCoinsFromAccountToModule balance _ coins :=
    if coins.all fun c => c.denom = ascii "uterp" then some (balance + (coins.map Coin.amount).sum)
    else none

def escrowReceived (balance : ℤ) (denom : Bytes) : ℤ := if denom = ascii "uterp" then balance else 0

def escrowStart : State ℤ := ⟨setRegisteredChain .empty ⟨ascii "c", [], [], [], true, []⟩, 0⟩

def registerSample (blockHeight : UInt64) (amount : ℤ) : Op :=
  .registerContract blockHeight ⟨sampleSender, ascii "a", ascii "c", [], ⟨ascii "uterp", amount⟩⟩

def refillSample (amount : ℤ) : Op :=
  .refillEscrow ⟨sampleSender, ascii "a", ⟨ascii "uterp", amount⟩⟩

theorem escrowKeeper_receives : Receives escrowKeeper escrowReceived := by
  intro app sender coins app' h denom
  obtain ⟨hall, happ⟩ := Option.ite_none_right_eq_some.mp h
  rw [← Option.some.inj happ]
  have hdenom : ∀ c ∈ coins, c.denom = ascii "uterp" := by simpa using hall
  by_cases hd : denom = ascii "uterp"
  · simp only [escrowReceived, if_pos hd]
    congr 2
    exact List.map_congr_left fun c hc => by rw [Coin.of, if_pos (by rw [hdenom c hc, hd])]
  · simp only [escrowReceived, if_neg hd, zero_add]
    refine (List.sum_eq_zero fun n hn => ?_).symm
    obtain ⟨c, hc, rfl⟩ := List.mem_map.mp hn
    rw [Coin.of, if_neg fun h => hd (by rw [← h, hdenom c hc])]

/-- The second registration replaces the record: seven minimum amounts were received, one is on record, and the
contract is paid until an earlier height than before. -/
theorem registered_twice_not_accounted :
    let ops := [registerSample 10 5000000, refillSample 1000000, registerSample 11 1000000]
    let final := run escrowKeeper.step escrowStart ops
    getEscrowRecord (run escrowKeeper.step escrowStart (ops.take 2)).store (ascii "a") =
        .ok ⟨ascii "a", ⟨ascii "uterp", 6000000⟩, 6010, 0⟩ ∧
      getEscrowRecord final.store (ascii "a") = .ok ⟨ascii "a", ⟨ascii "uterp", 1000000⟩, 1011, 0⟩ ∧
      escrowKeeper.escrowed (ascii "a") escrowStart ops = 7000000 ∧ final.app = 7000000 ∧
      ¬ Accounted escrowKeeper defaultParams escrowReceived escrowStart ops := by
  intro ops final
  have hrecord : getEscrowRecord final.store (ascii "a") =
      .ok ⟨ascii "a", ⟨ascii "uterp", 1000000⟩, 1011, 0⟩ := by decide
  have hpaid : escrowKeeper.escrowed (ascii "a") escrowStart ops = 7000000 := by decide
  refine ⟨by decide, hrecord, hpaid, by decide, fun h => ?_⟩
  have hamount := h.amount (ascii "a") _ hrecord
  exact absurd hamount (by decide)

/-- Without the second registration, and with a prune, the accounts agree. -/
theorem registered_once_accounted :
    let ops := [registerSample 10 5000000, refillSample 1000000, .endBlock 7000]
    getParams escrowStart.store = .ok defaultParams ∧ Along escrowKeeper.step OnceAndInRange escrowStart ops ∧
      Accounted escrowKeeper defaultParams escrowReceived escrowStart ops := by
  intro ops
  have hops : Along escrowKeeper.step OnceAndInRange escrowStart ops := by decide
  refine ⟨rfl, hops, accounted_of_once escrowKeeper_receives rfl (fun addr => ?_) ops hops⟩
  refine (get_set_of_ne _ _ ?_).trans (get_empty _)
  simp [keyRegisteredChain, keyPrefixRegisteredChains, keyEscrow, keyPrefixEscrow]

end Hashmerchant
