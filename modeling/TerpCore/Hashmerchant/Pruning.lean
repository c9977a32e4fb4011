/-
  Pruning over whole runs.
-/
import TerpCore.Hashmerchant.Genesis

namespace Hashmerchant

open Lib Outcome KVStore List

variable {β : Type} {k : Keeper β}

/-! ## Heights and ranges -/

/-- The blocks that an amount buys, without a bound. -/
def Params.exactBlocks (p : Params) (c : Coin) : ℕ := (c.amount / p.minEscrowAmount).toNat * p.pruneInterval.toNat

theorem toNat_blocksBought {p : Params} {c : Coin} {blocks : UInt64} (hpos : c.isPositive = true)
    (h : p.blocksBought c = some blocks) (hrange : p.exactBlocks c < 2 ^ 64) : blocks.toNat = p.exactBlocks c := by
  have hamount : 0 ≤ c.amount := (of_decide_eq_true hpos).le
  simp only [Params.blocksBought, SdkInt.quo, Option.bind_eq_bind, Option.bind_eq_some_iff, Option.pure_def,
    Option.ite_none_left_eq_some, SdkInt.uint64, Option.ite_none_right_eq_some, Option.some.injEq] at h
  obtain ⟨q, ⟨-, rfl⟩, periods, ⟨⟨h0, hlt⟩, rfl⟩, rfl⟩ := h
  rw [Int.tdiv_eq_ediv_of_nonneg hamount] at h0 hlt ⊢
  unfold Params.exactBlocks at hrange ⊢
  have hq : (c.amount / p.minEscrowAmount).toNat < 2 ^ 64 := by omega
  rw [UInt64.toNat_mul, UInt64.toNat_ofNat', Nat.mod_eq_of_lt hq, Nat.mod_eq_of_lt hrange]

/-- The state, and the least height that an event may have. -/
structure Clocked (β : Type) where
  state : State β
  clock : ℕ

/-- The end of a block is the last event at its height. -/
def Event.after (clock : ℕ) : Event → ℕ
  | .op (.registerContract blockHeight _) => blockHeight.toNat
  | .op (.endBlock blockHeight) => blockHeight.toNat + 1
  | _ => clock

def Keeper.tick (k : Keeper β) (c : Clocked β) (e : Event) : Clocked β := ⟨k.advance c.state e, e.after c.clock⟩

/-- The height a registration pays until fits 64 bits. -/
def registerExact (s : Store) (blockHeight : UInt64) (msg : MsgRegisterContract) : Bool :=
  match getParams s with
  | .ok params => blockHeight.toNat + params.exactBlocks msg.escrow < 2 ^ 64
  | _ => true

/-- The height a refill pays until fits 64 bits. -/
def refillExact (s : Store) (msg : MsgRefillEscrow) : Bool :=
  match getParams s, getEscrowRecord s msg.contractAddr with
  | .ok params, .ok record => record.paidUntilHeight.toNat + params.exactBlocks msg.amount < 2 ^ 64
  | _, _ => true

/-- Heights do not go back, and no height that a contract is paid until leaves 64 bits. -/
def Timely (c : Clocked β) : Event → Prop
  | .op (.registerChain _) => True
  | .op (.registerContract blockHeight msg) =>
    c.clock ≤ blockHeight.toNat ∧ registerExact c.state.store blockHeight msg = true
  | .op (.refillEscrow msg) => refillExact c.state.store msg = true
  | .op (.endBlock blockHeight) => c.clock ≤ blockHeight.toNat
  | .updateParams _ => True
  | .preBlock _ _ _ => False

instance (c : Clocked β) : ∀ e, Decidable (Timely c e)
  | .op (.registerChain _) => isTrue trivial
  | .op (.registerContract _ _) => inferInstanceAs (Decidable (_ ∧ _))
  | .op (.refillEscrow _) => inferInstanceAs (Decidable (_ = true))
  | .op (.endBlock _) => inferInstanceAs (Decidable (_ ≤ _))
  | .updateParams _ => isTrue trivial
  | .preBlock _ _ _ => isFalse id

/-- Every enabled contract is paid until the last prune. -/
structure PaidUp (c : Clocked β) : Prop where
  keyed : WellKeyed c.state.store
  epoch : ∃ epoch, getPruneEpoch c.state.store = .ok epoch ∧ epoch.toNat ≤ c.clock ∧
    ∀ addr contract, getRegisteredContract c.state.store addr = .ok contract → contract.enabled = true →
      ∃ r, getEscrowRecord c.state.store addr = .ok r ∧ epoch ≤ r.paidUntilHeight

/-! ## One prune -/

section prune

variable {s : Store} {params : Params}

variable {addr : Bytes} {c : RegisteredContract} {height : UInt64}

theorem getRegisteredContract_eq_ok :
    getRegisteredContract s addr = .ok c ↔ s.get (keyRegisteredContract addr) = some (.contract c) := by
  unfold getRegisteredContract
  split <;> simp_all

theorem keyRegisteredContract_inj {addr' : Bytes} :
    keyRegisteredContract addr = keyRegisteredContract addr' ↔ addr = addr' := by
  rw [keyRegisteredContract, keyRegisteredContract, append_cancel_left_eq]

theorem WellKeyed.contractAddr (hs : WellKeyed s) (h : getRegisteredContract s addr = .ok c) : c.contractAddr = addr :=
  (keyRegisteredContract_inj.mp (hs _ _ (getRegisteredContract_eq_ok.mp h))).symm

theorem WellKeyed.escrowAddr (hs : WellKeyed s) {r : EscrowRecord}
    (h : getEscrowRecord s addr = .ok r) : r.contractAddr = addr :=
  (keyEscrow_inj.mp (hs _ _ (getEscrowRecord_eq_ok.mp h))).symm

theorem getRegisteredContract_set (c : RegisteredContract) (addr : Bytes) :
    getRegisteredContract (setRegisteredContract s c) addr =
      if c.contractAddr = addr then .ok c else getRegisteredContract s addr := by
  unfold getRegisteredContract setRegisteredContract
  rw [get_set]
  by_cases h : c.contractAddr = addr
  · rw [if_pos (keyRegisteredContract_inj.mpr h), if_pos h]
  · rw [if_neg (mt keyRegisteredContract_inj.mp h), if_neg h]

theorem wellKeyed_disableContract (hs : WellKeyed s) (addr : Bytes) : WellKeyed (disableContract s addr) := by
  unfold disableContract
  split
  · exact hs.set rfl
  · exact hs

theorem getRegisteredContract_disable_of_ne (hs : WellKeyed s) {addr' : Bytes} (hne : addr ≠ addr') :
    getRegisteredContract (disableContract s addr) addr' = getRegisteredContract s addr' := by
  unfold disableContract
  split
  · next c hc => rw [getRegisteredContract_set, if_neg (hs.contractAddr hc ▸ hne)]
  · rfl

theorem enabled_disable_self (hs : WellKeyed s)
    (h : getRegisteredContract (disableContract s addr) addr = .ok c) : c.enabled = false := by
  unfold disableContract at h
  split at h
  · next old hold =>
      rw [getRegisteredContract_set, if_pos (hs.contractAddr hold)] at h
      rw [← ok.inj h]
  · next hnone => exact absurd h (hnone c)

theorem getRegisteredContract_foldl_disable : ∀ {addrs : List Bytes} {s : Store}, WellKeyed s →
    addr ∉ addrs → getRegisteredContract (addrs.foldl disableContract s) addr = getRegisteredContract s addr
  | [], _, _, _ => rfl
  | a :: addrs, s, hs, haddr => by
    rw [mem_cons, not_or] at haddr
    rw [foldl_cons, getRegisteredContract_foldl_disable (wellKeyed_disableContract hs a) haddr.2,
      getRegisteredContract_disable_of_ne hs (Ne.symm haddr.1)]

theorem enabled_foldl_disable : ∀ {addrs : List Bytes} {s : Store},
    WellKeyed s → addr ∈ addrs → getRegisteredContract (addrs.foldl disableContract s) addr = .ok c → c.enabled = false
  | a :: addrs, s, hs, haddr, h => by
    rw [foldl_cons] at h
    by_cases hlater : addr ∈ addrs
    · exact enabled_foldl_disable (wellKeyed_disableContract hs a) hlater h
    · rw [getRegisteredContract_foldl_disable (wellKeyed_disableContract hs a) hlater] at h
      obtain rfl := (mem_cons.mp haddr).resolve_right hlater
      exact enabled_disable_self hs h

theorem mem_toDisable (hs : WellKeyed s) (height : UInt64) (addr : Bytes) :
    addr ∈ ((escrowRecords s).filter fun r => r.paidUntilHeight < height).map EscrowRecord.contractAddr ↔
      ∃ r, getEscrowRecord s addr = .ok r ∧ r.paidUntilHeight < height := by
  have hrecord : ∀ r, r ∈ escrowRecords s ↔ getEscrowRecord s r.contractAddr = .ok r := by
    intro r
    rw [escrowRecords, mem_filterMap, getEscrowRecord_eq_ok]
    constructor
    · rintro ⟨⟨key, v⟩, hrow, hv⟩
      rw [mem_iterator] at hrow
      cases v with
      | escrow r' =>
        cases hv
        exact hs _ _ hrow ▸ hrow
      | _ => cases hv
    · intro hrow
      exact ⟨(r.contractAddr, .escrow r), mem_iterator.mpr hrow, rfl⟩
  simp only [mem_map, mem_filter, decide_eq_true_eq, hrecord]
  constructor
  · rintro ⟨r, ⟨hr, hlt⟩, rfl⟩
    exact ⟨r, hr, hlt⟩
  · rintro ⟨r, hr, hlt⟩
    obtain rfl := hs.escrowAddr hr
    exact ⟨r, ⟨hr, hlt⟩, rfl⟩

theorem getPruneEpoch_set (height : UInt64) : getPruneEpoch (setPruneEpoch s height) = .ok height := by
  rw [getPruneEpoch, setPruneEpoch]
  simp

theorem getRegisteredContract_setPruneEpoch (height : UInt64) (addr : Bytes) :
    getRegisteredContract (setPruneEpoch s height) addr = getRegisteredContract s addr := by
  rw [getRegisteredContract, setPruneEpoch, get_set_of_ne _ _ (by
    simp [keyPrefixPruneEpoch, keyRegisteredContract, keyPrefixRegisteredContracts]), ← getRegisteredContract]

theorem endBlocker_eq (hparams : getParams s = .ok params) {epoch : UInt64} (hepoch : getPruneEpoch s = .ok epoch)
    (hheight : epoch.toNat ≤ height.toNat) :
    endBlocker height s = .ok (if params.pruneInterval.toNat ≤ height.toNat - epoch.toNat then
      setPruneEpoch (pruneExpiredEscrows s height) height else s) := by
  have hsub : (height - epoch).toNat = height.toNat - epoch.toNat := by
    rw [UInt64.toNat_sub_of_le _ _ (UInt64.le_iff_toNat_le.mpr hheight)]
  rw [endBlocker, hparams, hepoch]
  simp only [ok_bind, UInt64.le_iff_toNat_le, hsub]
  split_ifs <;> rfl

theorem pruned_keeps (hs : WellKeyed s) {r : EscrowRecord} (hr : getEscrowRecord s addr = .ok r)
    (hpaid : height ≤ r.paidUntilHeight) :
    getRegisteredContract (setPruneEpoch (pruneExpiredEscrows s height) height) addr =
      getRegisteredContract s addr := by
  rw [getRegisteredContract_setPruneEpoch]
  refine getRegisteredContract_foldl_disable hs ?_
  rw [mem_toDisable hs]
  rintro ⟨r', hr', hlt⟩
  cases hr.symm.trans hr'
  exact absurd hlt (UInt64.not_lt.mpr hpaid)

theorem pruned_enabled (hs : WellKeyed s)
    (hc : getRegisteredContract (setPruneEpoch (pruneExpiredEscrows s height) height) addr = .ok c)
    (henabled : c.enabled = true) :
    getRegisteredContract s addr = .ok c ∧ ∀ r, getEscrowRecord s addr = .ok r → height ≤ r.paidUntilHeight := by
  rw [getRegisteredContract_setPruneEpoch] at hc
  have hnot : addr ∉ ((escrowRecords s).filter fun r => r.paidUntilHeight < height).map
      EscrowRecord.contractAddr := by
    intro hmem
    simp [enabled_foldl_disable hs hmem hc] at henabled
  rw [pruneExpiredEscrows, getRegisteredContract_foldl_disable hs hnot] at hc
  rw [mem_toDisable hs] at hnot
  exact ⟨hc, fun r hr => UInt64.not_lt.mp fun hlt => hnot ⟨r, hr, hlt⟩⟩

end prune

/-! ## Steps -/

section steps

variable {c : Clocked β}

/-- An enabled contract was so before and has its record, paid until no earlier height, or has one that is paid until
the clock. -/
def StaysPaid (clock : ℕ) (s s' : Store) : Prop :=
  ∀ addr contract, getRegisteredContract s' addr = .ok contract → contract.enabled = true →
    (∃ old, getRegisteredContract s addr = .ok old ∧ old.enabled = true ∧
      ∀ r, getEscrowRecord s addr = .ok r →
        ∃ r', getEscrowRecord s' addr = .ok r' ∧ r.paidUntilHeight ≤ r'.paidUntilHeight) ∨
    ∃ r', getEscrowRecord s' addr = .ok r' ∧ clock ≤ r'.paidUntilHeight.toNat

theorem PaidUp.of_staysPaid (h : PaidUp c) {s' : State β} {clock : ℕ} (hkeyed : WellKeyed s'.store)
    (hclock : c.clock ≤ clock)
    (hepoch : s'.store.get keyPrefixPruneEpoch = c.state.store.get keyPrefixPruneEpoch)
    (hpaid : StaysPaid c.clock c.state.store s'.store) : PaidUp ⟨s', clock⟩ := by
  obtain ⟨epoch, hget, hle, henabled⟩ := h.epoch
  refine ⟨hkeyed, epoch, ?_, hle.trans hclock, fun addr contract hcontract hon => ?_⟩
  · rw [getPruneEpoch, hepoch, ← getPruneEpoch, hget]
  · rcases hpaid addr contract hcontract hon with ⟨old, hold, hon, hrecord⟩ | ⟨r', hr', hpaid⟩
    · obtain ⟨r, hr, hepoch⟩ := henabled addr old hold hon
      obtain ⟨r', hr', hle⟩ := hrecord r hr
      exact ⟨r', hr', UInt64.le_trans hepoch hle⟩
    · exact ⟨r', hr', UInt64.le_iff_toNat_le.mpr (hle.trans hpaid)⟩

theorem staysPaid_set (clock : ℕ) (s : Store) {key : Bytes} (v : Value) (hcontract : key.head? ≠ some 0x02)
    (hescrow : key.head? ≠ some 0x03) : StaysPaid clock s (s.set key v) := by
  intro addr contract hc hon
  have hrecord : getEscrowRecord (s.set key v) addr = getEscrowRecord s addr := by
    rw [getEscrowRecord, get_set_of_ne _ _ (by rintro rfl; exact hescrow rfl), ← getEscrowRecord]
  rw [getRegisteredContract, get_set_of_ne _ _ (by rintro rfl; exact hcontract rfl)] at hc
  exact .inl ⟨contract, hc, hon, fun r hr => ⟨r, hrecord.trans hr, UInt64.le_refl _⟩⟩

theorem getEscrowRecord_set (s : Store) (r : EscrowRecord) (addr : Bytes) :
    getEscrowRecord (setEscrowRecord s r) addr = if r.contractAddr = addr then .ok r else getEscrowRecord s addr := by
  unfold getEscrowRecord setEscrowRecord
  rw [get_set]
  by_cases h : r.contractAddr = addr
  · rw [if_pos (keyEscrow_inj.mpr h), if_pos h]
  · rw [if_neg (mt keyEscrow_inj.mp h), if_neg h]

theorem getRegisteredContract_setEscrowRecord (s : Store) (r : EscrowRecord) (addr : Bytes) :
    getRegisteredContract (setEscrowRecord s r) addr = getRegisteredContract s addr := by
  rw [getRegisteredContract, setEscrowRecord, get_set_of_ne _ _ (by
    simp [keyEscrow, keyPrefixEscrow, keyRegisteredContract, keyPrefixRegisteredContracts]), ← getRegisteredContract]

theorem getEscrowRecord_setRegisteredContract (s : Store) (c : RegisteredContract) (addr : Bytes) :
    getEscrowRecord (setRegisteredContract s c) addr = getEscrowRecord s addr := by
  rw [getEscrowRecord, (sameAccounts_setRegisteredContract s c).escrow, ← getEscrowRecord]

theorem PaidUp.registerContract (h : PaidUp c) {blockHeight : UInt64} {msg : MsgRegisterContract}
    (hpos : msg.escrow.isPositive = true) (htimely : Timely c (.op (.registerContract blockHeight msg)))
    {s' : State β} (heq : k.registerContract blockHeight c.state msg = .ok s') (hkeyed : WellKeyed s'.store) :
    PaidUp ⟨s', blockHeight.toNat⟩ := by
  obtain ⟨params, app, blocks, hparams, -, -, hblocks, rfl⟩ := registerContract_eq_ok heq
  have hrange : blockHeight.toNat + params.exactBlocks msg.escrow < 2 ^ 64 := by
    simpa [registerExact, hparams] using htimely.2
  have hpaid : (blockHeight + blocks).toNat = blockHeight.toNat + params.exactBlocks msg.escrow := by
    rw [UInt64.toNat_add, toNat_blocksBought hpos hblocks (by omega), Nat.mod_eq_of_lt hrange]
  refine h.of_staysPaid hkeyed htimely.1 ?_ ?_
  · rw [setEscrowRecord, get_set_of_ne _ _ (by simp [keyEscrow, keyPrefixEscrow, keyPrefixPruneEpoch]),
      setRegisteredContract, get_set_of_ne _ _ (by
        simp [keyRegisteredContract, keyPrefixRegisteredContracts, keyPrefixPruneEpoch])]
  · intro addr contract hcontract hon
    rw [getRegisteredContract_setEscrowRecord, getRegisteredContract_set] at hcontract
    simp only [getEscrowRecord_set, getEscrowRecord_setRegisteredContract]
    by_cases haddr : msg.contractAddr = addr
    · refine .inr ⟨_, if_pos haddr, ?_⟩
      rw [hpaid]
      exact htimely.1.trans (Nat.le_add_right _ _)
    · rw [if_neg haddr] at hcontract
      exact .inl ⟨contract, hcontract, hon, fun r hr => ⟨r, by rw [if_neg haddr, hr], UInt64.le_refl _⟩⟩

theorem PaidUp.refillEscrow (h : PaidUp c) {msg : MsgRefillEscrow} (hpos : msg.amount.isPositive = true)
    (htimely : Timely c (.op (.refillEscrow msg))) {s' : State β} (heq : k.refillEscrow c.state msg = .ok s')
    (hkeyed : WellKeyed s'.store) : PaidUp ⟨s', c.clock⟩ := by
  obtain ⟨record, params, app, blocks, hrecord, hparams, -, -, hblocks, -, rfl⟩ := refillEscrow_eq_ok heq
  have hrange : record.paidUntilHeight.toNat + params.exactBlocks msg.amount < 2 ^ 64 := by
    have hexact : refillExact c.state.store msg = true := htimely
    simpa [refillExact, hparams, hrecord] using hexact
  have hle : record.paidUntilHeight ≤ record.paidUntilHeight + blocks := by
    have hblocks := toNat_blocksBought hpos hblocks (by omega)
    rw [UInt64.le_iff_toNat_le, UInt64.toNat_add]
    omega
  refine h.of_staysPaid hkeyed le_rfl ?_ ?_
  · rw [setEscrowRecord, get_set_of_ne _ _ (by simp [keyEscrow, keyPrefixEscrow, keyPrefixPruneEpoch])]
  · intro addr contract hcontract hon
    rw [getRegisteredContract_setEscrowRecord] at hcontract
    refine .inl ⟨contract, hcontract, hon, fun r hr => ?_⟩
    simp only [getEscrowRecord_set, h.keyed.escrowAddr hrecord]
    by_cases haddr : msg.contractAddr = addr
    · subst haddr
      cases hrecord.symm.trans hr
      exact ⟨_, if_pos rfl, hle⟩
    · exact ⟨r, by rw [if_neg haddr, hr], UInt64.le_refl _⟩

theorem PaidUp.endBlock (h : PaidUp c) {blockHeight : UInt64} (hclock : c.clock ≤ blockHeight.toNat) {s' : Store}
    (heq : endBlocker blockHeight c.state.store = .ok s') (hkeyed : WellKeyed s') :
    PaidUp ⟨{ c.state with store := s' }, blockHeight.toNat + 1⟩ := by
  obtain ⟨epoch, hepoch, hle, henabled⟩ := h.epoch
  obtain ⟨params, hparams, -⟩ := bind_eq_ok.mp heq
  have hsame := endBlocker_eq_ok heq
  rw [endBlocker_eq hparams hepoch (hle.trans hclock)] at heq
  split_ifs at heq with hdue
  · cases heq
    refine ⟨hkeyed, blockHeight, getPruneEpoch_set _, Nat.le_succ _, fun addr contract hcontract hon => ?_⟩
    obtain ⟨hold, hpaid⟩ := pruned_enabled h.keyed hcontract hon
    obtain ⟨r, hr, -⟩ := henabled addr contract hold hon
    exact ⟨r, by rw [getEscrowRecord, hsame.escrow, ← getEscrowRecord, hr], hpaid r hr⟩
  · cases heq
    exact ⟨h.keyed, epoch, hepoch, (hle.trans hclock).trans (Nat.le_succ _), henabled⟩

theorem PaidUp.tick (h : PaidUp c) {e : Event} (htimely : Timely c e) : PaidUp (k.tick c e) := by
  obtain ⟨epoch, hepoch, hle, henabled⟩ := h.epoch
  -- a step that fails leaves all but the clock
  have hfailed : c.clock ≤ e.after c.clock → PaidUp ⟨c.state, e.after c.clock⟩ := fun hclock =>
    ⟨h.keyed, epoch, hepoch, hle.trans hclock, henabled⟩
  have hclock : c.clock ≤ e.after c.clock := by
    rcases e with (_ | _ | _ | _) | _ | _
    · exact le_rfl
    · exact htimely.1
    · exact le_rfl
    · exact htimely.trans (Nat.le_succ _)
    · exact le_rfl
    · exact le_rfl
  unfold Keeper.tick Keeper.advance
  cases heq : k.happen c.state e with
  | error | panicked => exact hfailed hclock
  | ok s' =>
    cases e with
    | op op =>
      have hkeyed := wellKeyed_exec h.keyed heq
      cases op with
      | registerChain msg =>
        obtain ⟨_, -, heq⟩ := bind_eq_ok.mp heq
        simp only [Keeper.registerChain, bind_eq_ok] at heq
        obtain ⟨_, -, _, -, heq⟩ := heq
        cases heq
        refine h.of_staysPaid hkeyed le_rfl (get_set_of_ne _ _ ?_) (staysPaid_set _ _ _ ?_ ?_) <;>
          simp [keyRegisteredChain, keyPrefixRegisteredChains, keyPrefixPruneEpoch]
      | registerContract =>
        obtain ⟨_, hbasic, heq⟩ := bind_eq_ok.mp heq
        simp only [MsgRegisterContract.validateBasic, bind_eq_ok, require_eq_ok] at hbasic
        obtain ⟨_, -, _, -, _, -, hpos⟩ := hbasic
        exact h.registerContract hpos htimely heq hkeyed
      | refillEscrow msg =>
        obtain ⟨_, hbasic, heq⟩ := bind_eq_ok.mp heq
        simp only [MsgRefillEscrow.validateBasic, bind_eq_ok, require_eq_ok] at hbasic
        obtain ⟨_, -, _, -, hpos⟩ := hbasic
        exact h.refillEscrow hpos htimely heq hkeyed
      | endBlock blockHeight =>
        obtain ⟨store, hstore, heq⟩ := bind_eq_ok.mp heq
        cases heq
        exact h.endBlock htimely hstore hkeyed
    | updateParams msg =>
      obtain ⟨_, -, heq⟩ := bind_eq_ok.mp heq
      simp only [Keeper.updateParams, bind_eq_ok] at heq
      obtain ⟨_, -, _, -, heq⟩ := heq
      cases heq
      refine h.of_staysPaid (h.keyed.set rfl) le_rfl (get_set_of_ne _ _ ?_)
        (staysPaid_set _ _ _ ?_ ?_) <;> simp [keyPrefixParams, keyPrefixPruneEpoch]
    | preBlock => exact htimely.elim

end steps

/-! ## Runs -/

/-- What a prune at some height does. -/
structure PrunesAt (s : Store) (height : UInt64) : Prop where
  /-- it happens exactly if the interval has passed since the last one -/
  interval : ∀ params epoch, getParams s = .ok params → getPruneEpoch s = .ok epoch →
    endBlocker height s = .ok (if params.pruneInterval.toNat ≤ height.toNat - epoch.toNat then
      setPruneEpoch (pruneExpiredEscrows s height) height else s)
  /-- it leaves a contract alone that is paid until this height or a later one -/
  spares : ∀ addr r, getEscrowRecord s addr = .ok r → height ≤ r.paidUntilHeight →
    ∀ s', endBlocker height s = .ok s' → getRegisteredContract s' addr = getRegisteredContract s addr

theorem PaidUp.prunesAt {c : Clocked β} (h : PaidUp c) {height : UInt64} (hclock : c.clock ≤ height.toNat) :
    PrunesAt c.state.store height := by
  obtain ⟨epoch, hepoch, hle, -⟩ := h.epoch
  constructor
  · intro params epoch' hparams hepoch'
    cases hepoch.symm.trans hepoch'
    exact endBlocker_eq hparams hepoch (hle.trans hclock)
  · intro addr r hr hpaid s' heq
    obtain ⟨params, hparams, -⟩ := bind_eq_ok.mp heq
    rw [endBlocker_eq hparams hepoch (hle.trans hclock)] at heq
    split_ifs at heq with hdue
    · rw [← ok.inj heq, pruned_keeps h.keyed hr hpaid]
    · rw [← ok.inj heq]

/-- **Enabled implies paid at the last prune.**  From a state without contracts whose prune epoch is not ahead of the
clock, after any events in time: an enabled contract is paid until the last prune, and a prune happens exactly when
its interval has passed and spares the contracts that are paid. -/
theorem enabled_paid_at_last_prune (k : Keeper β) (s : State β) (hkeyed : WellKeyed s.store)
    (hnone : ∀ addr, s.store.get (keyRegisteredContract addr) = none) (epoch : UInt64)
    (hepoch : getPruneEpoch s.store = .ok epoch) (clock : ℕ) (hclock : epoch.toNat ≤ clock) (events : List Event)
    (htimely : Along k.tick Timely ⟨s, clock⟩ events) :
    (∀ contract ∈ registeredContracts (run k.tick ⟨s, clock⟩ events).state.store, contract.enabled = true →
      ∃ r epoch, getEscrowRecord (run k.tick ⟨s, clock⟩ events).state.store contract.contractAddr = .ok r ∧
        getPruneEpoch (run k.tick ⟨s, clock⟩ events).state.store = .ok epoch ∧ epoch ≤ r.paidUntilHeight) ∧
    ∀ height : UInt64, (run k.tick ⟨s, clock⟩ events).clock ≤ height.toNat →
      PrunesAt (run k.tick ⟨s, clock⟩ events).state.store height := by
  have hstart : PaidUp ⟨s, clock⟩ := by
    refine ⟨hkeyed, epoch, hepoch, hclock, fun addr contract hcontract => ?_⟩
    simp [getRegisteredContract_eq_ok, hnone] at hcontract
  have hend := run_invariant (fun c e h htimely => h.tick htimely) _ events htimely hstart
  refine ⟨fun contract hcontract hon => ?_, fun height hheight => hend.prunesAt hheight⟩
  obtain ⟨epoch, hepoch, -, henabled⟩ := hend.epoch
  have hget : getRegisteredContract (run k.tick ⟨s, clock⟩ events).state.store contract.contractAddr =
      .ok contract := by
    rw [registeredContracts, mem_filterMap] at hcontract
    obtain ⟨⟨key, v⟩, hrow, hv⟩ := hcontract
    rw [mem_iterator] at hrow
    cases v with
    | contract c =>
      cases hv
      exact getRegisteredContract_eq_ok.mpr (hend.keyed _ _ hrow ▸ hrow)
    | _ => cases hv
  obtain ⟨r, hr, hpaid⟩ := henabled _ contract hget hon
  exact ⟨r, epoch, hr, hepoch, hpaid⟩

/-- The contract `a` is registered for five intervals, refilled for one more, and pruned at shorter intervals. -/
def pruningEvents : List Event :=
  [.op (registerSample 10 5000000), .op (.endBlock 1000), .op (refillSample 1000000),
    .updateParams ⟨sampleSender, { defaultParams with pruneInterval := 10 }⟩, .op (.endBlock 5000)]

/-- The last prune was at 5000, and the contract is paid until 6010. -/
theorem refilled_contract_paid :
    getPruneEpoch (run escrowKeeper.tick ⟨escrowStart, 0⟩ pruningEvents).state.store = .ok 5000 ∧
    registeredContracts (run escrowKeeper.tick ⟨escrowStart, 0⟩ pruningEvents).state.store =
      [⟨ascii "a", ascii "c", [], true⟩] ∧
    ∃ r epoch, getEscrowRecord (run escrowKeeper.tick ⟨escrowStart, 0⟩ pruningEvents).state.store (ascii "a") = .ok r ∧
      getPruneEpoch (run escrowKeeper.tick ⟨escrowStart, 0⟩ pruningEvents).state.store = .ok epoch ∧
      epoch ≤ r.paidUntilHeight := by
  have hcontracts : registeredContracts (run escrowKeeper.tick ⟨escrowStart, 0⟩ pruningEvents).state.store =
      [⟨ascii "a", ascii "c", [], true⟩] := by decide +kernel
  refine ⟨by decide +kernel, hcontracts, ?_⟩
  refine (enabled_paid_at_last_prune escrowKeeper escrowStart (wellKeyed_empty.set rfl) (fun addr => ?_)
    0 (by decide) 0 le_rfl pruningEvents (by decide +kernel)).1 ⟨ascii "a", ascii "c", [], true⟩
    (by rw [hcontracts]; exact mem_singleton.mpr rfl) rfl
  refine (get_set_of_ne _ _ ?_).trans (get_empty _)
  simp [keyRegisteredChain, keyPrefixRegisteredChains, keyRegisteredContract, keyPrefixRegisteredContracts]

/-- A genesis without contracts, whose prune epoch is ahead of the first block. -/
def aheadGenesis : GenesisState where
  params := defaultParams
  registeredChains := [⟨ascii "c", [], [], [], true, []⟩]
  registeredContracts := []
  escrowRecords := []
  hashRoots := []
  pruneEpoch := 5000

def aheadStart : State ℤ := ⟨escrowKeeper.initGenesis .empty aheadGenesis, 0⟩

/-- A contract registered in the first block is paid until 1001 and enabled, and that block prunes, 4999 blocks before
the last prune. -/
theorem epoch_ahead_of_chain : aheadGenesis.validate = .ok () ∧ registeredContracts aheadStart.store = [] ∧
    getPruneEpoch (run escrowKeeper.tick ⟨aheadStart, 1⟩ [.op (registerSample 1 1000000)]).state.store = .ok 5000 ∧
    registeredContracts (run escrowKeeper.tick ⟨aheadStart, 1⟩ [.op (registerSample 1 1000000)]).state.store =
      [⟨ascii "a", ascii "c", [], true⟩] ∧
    getEscrowRecord (run escrowKeeper.tick ⟨aheadStart, 1⟩ [.op (registerSample 1 1000000)]).state.store (ascii "a") =
      .ok ⟨ascii "a", ⟨ascii "uterp", 1000000⟩, 1001, 0⟩ ∧
    getPruneEpoch (run escrowKeeper.tick ⟨aheadStart, 1⟩ [.op (.endBlock 1)]).state.store = .ok 1 := by
  decide +kernel

end Hashmerchant
