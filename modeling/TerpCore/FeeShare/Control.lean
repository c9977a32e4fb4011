/-
  Who can direct the fees of a contract elsewhere.

  The handlers read what x/wasm knows of a contract without looking whether it knows it.
-/
import TerpCore.FeeShare.Index
import TerpCore.Lib.Proc

namespace Feeshare

open Lib Outcome Proc KVStore

/-! ## `ValidateBasic` -/

inductive BasicErr where
  | deployer (text : Bytes)
  | contract (text : Bytes)
  | withdrawer (text : Bytes)
  | authority
  | params (cause : Err)
  deriving DecidableEq

/-- The text of an error, around that of the address. -/
def BasicErr.format : BasicErr → String
  | deployer _ => "invalid deployer address %s: %s"
  | contract _ => "invalid contract address %s: %s"
  | withdrawer _ => "invalid withdraw address %s: %s"
  | authority => "invalid authority address: %s"
  | params e => e.format

/-- A registration may leave out the withdrawer; a cancellation reports an unreadable contract as the deployer. -/
def Msg.validateBasic (codec : Bech32) : Msg → Outcome BasicErr Unit
  | .registerFeeShare contractAddress deployerAddress withdrawerAddress => do
    Outcome.require (codec.accAddressFromBech32 deployerAddress).isSome (.deployer deployerAddress)
    require (codec.accAddressFromBech32 contractAddress).isSome (.contract contractAddress)
    if withdrawerAddress = [] then .ok ()
    else require (codec.accAddressFromBech32 withdrawerAddress).isSome (.withdrawer withdrawerAddress)
  | .updateFeeShare contractAddress deployerAddress withdrawerAddress => do
    require (codec.accAddressFromBech32 deployerAddress).isSome (.deployer deployerAddress)
    require (codec.accAddressFromBech32 contractAddress).isSome (.contract contractAddress)
    require (codec.accAddressFromBech32 withdrawerAddress).isSome (.withdrawer withdrawerAddress)
  | .cancelFeeShare contractAddress deployerAddress => do
    require (codec.accAddressFromBech32 deployerAddress).isSome (.deployer deployerAddress)
    require (codec.accAddressFromBech32 contractAddress).isSome (.deployer deployerAddress)
  | .updateParams authority params => do
    require (codec.accAddressFromBech32 authority).isSome .authority
    match params.validate with
    | .ok _ => .ok ()
    | .error e => .error (.params e)
    | .panicked => .panicked

/-! ## The handlers, write by write -/

namespace Keeper

variable (k : Keeper) (contracts : Contracts)

def registerFeeShareOn (contractAddress deployerAddress withdrawerAddress : Bytes) : Proc Store Err Unit := do
  let s ← get
  .ofOutcome (.require (getParams s).enableFeeShare .disabled)
  let contract ← .ofOutcome (.demand (k.codec.accAddressFromBech32 contractAddress) .invalidContractAddress)
  .ofOutcome (.require (!isFeeShareRegistered s contract) (.alreadyRegistered (k.codec.string contract)))
  let withdrawer ← .ofOutcome (.demand (k.codec.accAddressFromBech32 withdrawerAddress)
    (.invalidWithdrawerAddress withdrawerAddress))
  let deployer ← .ofOutcome (k.deployerOf contracts contract contractAddress deployerAddress withdrawerAddress)
  .write fun s => k.setFeeShare s (newFeeShare k.codec.toBech32 contract deployer withdrawer)
  .modify fun s => setDeployerMap s deployer.bytes contract
  .modify fun s => setWithdrawerMap s withdrawer.bytes contract

def updateFeeShareOn (contractAddress deployerAddress withdrawerAddress : Bytes) : Proc Store Err Unit := do
  let s ← get
  .ofOutcome (.require (getParams s).enableFeeShare .disabled)
  let contract ← .ofOutcome (.demand (k.codec.accAddressFromBech32 contractAddress) .invalidContractAddress)
  let feeshare ← .ofOutcome (.demand (getFeeShare s contract) (.notRegistered contractAddress))
  .ofOutcome (.require (withdrawerAddress != feeshare.withdrawerAddress)
    (.withdrawerAlreadyRegistered withdrawerAddress))
  let _ ← .ofOutcome (k.getContractAdminOrCreatorAddress contracts contract deployerAddress)
  let withdrawAddr ← .ofOutcome (.demand (k.codec.accAddressFromBech32 feeshare.withdrawerAddress)
    .invalidRegisteredWithdrawer)
  let newWithdrawAddr ← .ofOutcome (.demand (k.codec.accAddressFromBech32 withdrawerAddress)
    (.invalidNewWithdrawer withdrawerAddress))
  .modify fun s => deleteWithdrawerMap s withdrawAddr.bytes contract
  .modify fun s => setWithdrawerMap s newWithdrawAddr.bytes contract
  .write fun s => k.setFeeShare s { feeshare with withdrawerAddress := k.codec.string newWithdrawAddr }

def cancelFeeShareOn (contractAddress deployerAddress : Bytes) : Proc Store Err Unit := do
  let s ← get
  .ofOutcome (.require (getParams s).enableFeeShare .disabled)
  let contract ← .ofOutcome (.demand (k.codec.accAddressFromBech32 contractAddress) .invalidContractAddress)
  let fee ← .ofOutcome (.demand (getFeeShare s contract) (.notRegistered contractAddress))
  let _ ← .ofOutcome (k.getContractAdminOrCreatorAddress contracts contract deployerAddress)
  .write fun s => k.deleteFeeShare s fee
  .modify fun s => deleteDeployerMap s (bytesOf (fee.getDeployerAddr k.codec.toBech32)) contract
  match fee.getWithdrawerAddr k.codec.toBech32 with
  | some withdrawAddr => .modify fun s => deleteWithdrawerMap s withdrawAddr.bytes contract
  | none => pure ()

/-- The handlers of the messages, on the store. -/
def deliver (msg : Msg) : Proc Store Err Unit :=
  match msg with
  | .registerFeeShare contract deployer withdrawer => k.registerFeeShareOn contracts contract deployer withdrawer
  | .updateFeeShare contract deployer withdrawer => k.updateFeeShareOn contracts contract deployer withdrawer
  | .cancelFeeShare contract deployer => k.cancelFeeShareOn contracts contract deployer
  | .updateParams authority params => .write fun s => k.updateParams s authority params

end Keeper

section realized

variable {k : Keeper} {contracts : Keeper.Contracts} {s : Store}

theorem setFeeShare_ne_error {f : FeeShare} {e : Err} : k.setFeeShare s f ≠ .error e := by
  rw [Keeper.setFeeShare]
  cases f.getContractAddr k.codec.toBech32 <;> simp [ofOption]

theorem deliver_realizes (msg : Msg) : (k.deliver contracts msg).Realizes s (k.handle s ⟨contracts, msg⟩) := by
  cases msg with
  | registerFeeShare =>
    refine Proc.Realizes.check fun _ _ => Proc.Realizes.check fun contract _ => Proc.Realizes.check fun _ _ =>
      Proc.Realizes.check fun withdrawer _ => Proc.Realizes.check fun deployer _ => ?_
    exact Proc.Realizes.writes fun _ => rfl
  | updateFeeShare contractAddress deployerAddress withdrawerAddress =>
    refine Proc.Realizes.check fun _ _ => Proc.Realizes.check fun contract _ => Proc.Realizes.check fun feeshare _ =>
      Proc.Realizes.check fun _ _ => Proc.Realizes.check fun _ _ => Proc.Realizes.check fun withdrawAddr _ =>
      Proc.Realizes.check fun newWithdrawAddr _ => ?_
    -- the entries are written before the record, which cannot be refused with an error
    rcases hset : k.setFeeShare (setWithdrawerMap (deleteWithdrawerMap s withdrawAddr.bytes contract)
      newWithdrawAddr.bytes contract) { feeshare with withdrawerAddress := k.codec.string newWithdrawAddr }
      with t | e | _
    · simp only [hset, Proc.Realizes, Proc.bind_apply, Proc.modify, Proc.write]
    · exact absurd hset setFeeShare_ne_error
    · simp only [hset, Proc.Realizes, Proc.bind_apply, Proc.modify, Proc.write]
  | cancelFeeShare =>
    refine Proc.Realizes.check fun _ _ => Proc.Realizes.check fun contract _ => Proc.Realizes.check fun fee _ =>
      Proc.Realizes.check fun _ _ => ?_
    cases fee.getWithdrawerAddr k.codec.toBech32 with
    | some | none => exact Proc.Realizes.writes fun _ => rfl
  | updateParams authority params =>
    simp only [Keeper.deliver, Keeper.handle]
    rcases hparams : k.updateParams s authority params with t | e | _ <;> simp [Proc.Realizes, write, hparams]

end realized

/-! ## Records under their contracts -/

/-- Every record stands under its contract. -/
def Filed (k : Keeper) (s : Store) : Prop :=
  ∀ c f, getFeeShare s c = some f → f.getContractAddr k.codec.toBech32 = some c

section filed

variable {k : Keeper} {s : Store} {c : AccAddress}

theorem getFeeShare_set (f : FeeShare) (c' : AccAddress) :
    getFeeShare (s.set (keyPrefixFeeShare ++ c.bytes) (.feeShare f)) c' =
      if c = c' then some f else getFeeShare s c' := by
  unfold getFeeShare
  rw [get_set]
  by_cases hc : c = c'
  · subst hc
    rw [if_pos rfl, if_pos rfl]
  · rw [if_neg hc, if_neg fun heq => hc (AccAddress.ext (List.append_cancel_left heq))]

theorem getFeeShare_delete (c' : AccAddress) :
    getFeeShare (s.delete (keyPrefixFeeShare ++ c.bytes)) c' = if c = c' then none else getFeeShare s c' := by
  unfold getFeeShare
  rw [get_delete]
  by_cases hc : c = c'
  · subst hc
    rw [if_pos rfl, if_pos rfl]
  · rw [if_neg hc, if_neg fun heq => hc (AccAddress.ext (List.append_cancel_left heq))]

variable (o : Bytes) (c c' : AccAddress)

@[simp] theorem getFeeShare_setDeployerMap : getFeeShare (setDeployerMap s o c) c' = getFeeShare s c' :=
  getFeeShare_congr (get_set_of_ne _ _ (by simp [entryKey, keyPrefixDeployer, keyPrefixFeeShare]))

@[simp] theorem getFeeShare_setWithdrawerMap : getFeeShare (setWithdrawerMap s o c) c' = getFeeShare s c' :=
  getFeeShare_congr (get_set_of_ne _ _ (by simp [entryKey, keyPrefixWithdrawer, keyPrefixFeeShare]))

@[simp] theorem getFeeShare_deleteDeployerMap : getFeeShare (deleteDeployerMap s o c) c' = getFeeShare s c' :=
  getFeeShare_congr (get_delete_of_ne _ (by simp [entryKey, keyPrefixDeployer, keyPrefixFeeShare]))

@[simp] theorem getFeeShare_deleteWithdrawerMap : getFeeShare (deleteWithdrawerMap s o c) c' = getFeeShare s c' :=
  getFeeShare_congr (get_delete_of_ne _ (by simp [entryKey, keyPrefixWithdrawer, keyPrefixFeeShare]))

@[simp] theorem getFeeShare_set_paramsKey (v : Value) : getFeeShare (s.set paramsKey v) c' = getFeeShare s c' :=
  getFeeShare_congr (get_set_of_ne _ _ (by simp [paramsKey, keyPrefixFeeShare]))

end filed

/-! ## Who may change a record -/

/-- The account that signs a message of a deployer. -/
def Msg.deployer : Msg → Option Bytes
  | .registerFeeShare _ deployerAddress _ => some deployerAddress
  | .updateFeeShare _ deployerAddress _ => some deployerAddress
  | .cancelFeeShare _ deployerAddress => some deployerAddress
  | .updateParams _ _ => none

/-- The text of the account that controls a contract: its admin, or its creator if there is none. -/
def Keeper.ContractInfo.controller (info : Keeper.ContractInfo) : Bytes :=
  if info.admin = [] then info.creator else info.admin

/-- A contract is controlled by an account. -/
def ControlledBy (k : Keeper) (contracts : Keeper.Contracts) (c account : AccAddress) : Prop :=
  ∃ info, contracts c = some info ∧ k.codec.accAddressFromBech32 info.controller = some account

/-- A contract is controlled by another contract, or by governance. -/
def MadeByFactory (k : Keeper) (contracts : Keeper.Contracts) (c : AccAddress) : Prop :=
  ∃ info, contracts c = some info ∧ (info.admin = k.codec.string k.govAddress ∨
    ∃ maker, k.codec.accAddressFromBech32 info.controller = some maker ∧ (contracts maker).isSome)

/-- The record of `c` may become `r`: the signer controls `c`, or it is registered to itself. -/
def Authorized (k : Keeper) (contracts : Keeper.Contracts) (s : Store) (signer : Bytes) (c : AccAddress)
    (r : Option FeeShare) : Prop :=
  (∃ account, k.codec.accAddressFromBech32 signer = some account ∧ ControlledBy k contracts c account) ∨
    MadeByFactory k contracts c ∧ getFeeShare s c = none ∧ r = some (newFeeShare k.codec.toBech32 c c c)

section control

variable {k : Keeper} {contracts : Keeper.Contracts} {s t : Store} {contract : AccAddress}

theorem controlledBy_of_ok {deployer : Bytes} {a : AccAddress}
    (h : k.getContractAdminOrCreatorAddress contracts contract deployer = .ok a) :
    k.codec.accAddressFromBech32 deployer = some a ∧ ControlledBy k contracts contract a := by
  obtain ⟨_, -, h⟩ := bind_eq_ok.mp h
  obtain ⟨info, hinfo, h⟩ := bind_eq_ok.mp h
  rw [ofOption_eq_ok] at hinfo
  split_ifs at h with hadmin
  · obtain ⟨_, heq, h⟩ := bind_eq_ok.mp h
    rw [demand_eq_ok] at h
    refine ⟨?_, info, hinfo, by rwa [Keeper.ContractInfo.controller, if_pos hadmin]⟩
    rwa [← eq_of_beq (require_eq_ok.mp heq)]
  · obtain ⟨_, heq, h⟩ := bind_eq_ok.mp h
    rw [demand_eq_ok] at h
    refine ⟨?_, info, hinfo, by rwa [Keeper.ContractInfo.controller, if_neg hadmin]⟩
    rwa [← eq_of_beq (require_eq_ok.mp heq)]

theorem madeByFactory_of {info : Keeper.ContractInfo} (hinfo : contracts contract = some info)
    (h : k.getIfContractWasCreatedFromFactory contracts info = true) : MadeByFactory k contracts contract := by
  refine ⟨info, hinfo, ?_⟩
  unfold Keeper.getIfContractWasCreatedFromFactory at h
  cases hcreator : k.codec.accAddressFromBech32 info.creator with
  | none =>
    simp [hcreator] at h
  | some creator =>
    simp only [hcreator] at h
    split_ifs at h with hgov hadmin
    · exact .inl hgov
    · exact .inr ⟨creator, by rwa [Keeper.ContractInfo.controller, if_pos hadmin], h⟩
    · cases hmaker : k.codec.accAddressFromBech32 info.admin with
      | none =>
        simp [hmaker] at h
      | some maker =>
        rw [hmaker] at h
        exact .inr ⟨maker, by rwa [Keeper.ContractInfo.controller, if_neg hadmin], h⟩

theorem deployerOf_eq_ok {contractAddress deployerAddress withdrawerAddress : Bytes} {withdrawer deployer : AccAddress}
    (hcontract : k.codec.accAddressFromBech32 contractAddress = some contract)
    (hwithdrawer : k.codec.accAddressFromBech32 withdrawerAddress = some withdrawer)
    (h : k.deployerOf contracts contract contractAddress deployerAddress withdrawerAddress = .ok deployer) :
    (k.codec.accAddressFromBech32 deployerAddress = some deployer ∧ ControlledBy k contracts contract deployer) ∨
      MadeByFactory k contracts contract ∧ deployer = contract ∧ withdrawer = contract := by
  obtain ⟨info, hinfo, h⟩ := bind_eq_ok.mp h
  rw [ofOption_eq_ok] at hinfo
  split_ifs at h with hfactory
  · obtain ⟨_, heq, h⟩ := bind_eq_ok.mp h
    rw [demand_eq_ok, hcontract] at h
    rw [eq_of_beq (require_eq_ok.mp heq), hcontract] at hwithdrawer
    exact .inr ⟨madeByFactory_of hinfo hfactory, (Option.some.inj h).symm, (Option.some.inj hwithdrawer).symm⟩
  · exact .inl (controlledBy_of_ok h)

/-- What a message of a deployer does if it succeeds: the record of one contract is replaced. -/
theorem handle_eq_ok (hs : Filed k s) {msg : Msg} {signer : Bytes} (hsigner : msg.deployer = some signer)
    (h : k.handle s ⟨contracts, msg⟩ = .ok t) :
    ∃ c r, (∀ c', getFeeShare t c' = if c = c' then r else getFeeShare s c') ∧
      (∀ f, r = some f → f.getContractAddr k.codec.toBech32 = some c) ∧ Authorized k contracts s signer c r := by
  cases msg with
  | registerFeeShare =>
    cases hsigner
    obtain ⟨_, -, h⟩ := bind_eq_ok.mp h
    obtain ⟨contract, hcontract, h⟩ := bind_eq_ok.mp h
    obtain ⟨_, hnew, h⟩ := bind_eq_ok.mp h
    obtain ⟨withdrawer, hwithdrawer, h⟩ := bind_eq_ok.mp h
    obtain ⟨deployer, hdeployer, h⟩ := bind_eq_ok.mp h
    rw [demand_eq_ok] at hcontract hwithdrawer
    rw [setFeeShare_eq (getContractAddr_newFeeShare hcontract ..)] at h
    cases h
    have hnew : isFeeShareRegistered s contract = false := by simpa using hnew
    refine ⟨contract, some (newFeeShare k.codec.toBech32 contract deployer withdrawer), fun c' => ?_, ?_, ?_⟩
    · rw [getFeeShare_setWithdrawerMap, getFeeShare_setDeployerMap, getFeeShare_set]
    · rintro f ⟨⟩
      exact getContractAddr_newFeeShare hcontract ..
    · rcases deployerOf_eq_ok hcontract hwithdrawer hdeployer with hcontrol | ⟨hmade, rfl, rfl⟩
      · exact .inl ⟨deployer, hcontrol⟩
      · exact .inr ⟨hmade, getFeeShare_eq_none hnew, rfl⟩
  | updateFeeShare contractAddress deployerAddress withdrawerAddress =>
    cases hsigner
    obtain ⟨_, -, h⟩ := bind_eq_ok.mp h
    obtain ⟨contract, -, h⟩ := bind_eq_ok.mp h
    obtain ⟨f, hf, h⟩ := bind_eq_ok.mp h
    obtain ⟨_, -, h⟩ := bind_eq_ok.mp h
    obtain ⟨controller, hcontroller, h⟩ := bind_eq_ok.mp h
    obtain ⟨withdrawAddr, -, h⟩ := bind_eq_ok.mp h
    obtain ⟨newWithdrawAddr, -, h⟩ := bind_eq_ok.mp h
    have hcontract : FeeShare.getContractAddr k.codec.toBech32
        { f with withdrawerAddress := k.codec.string newWithdrawAddr } = some contract :=
      hs contract f (demand_eq_ok.mp hf)
    rw [setFeeShare_eq hcontract] at h
    cases h
    refine ⟨contract, some { f with withdrawerAddress := k.codec.string newWithdrawAddr }, fun c' => ?_, ?_,
      .inl ⟨controller, controlledBy_of_ok hcontroller⟩⟩
    · rw [getFeeShare_set, getFeeShare_setWithdrawerMap, getFeeShare_deleteWithdrawerMap]
    · rintro g ⟨⟩
      exact hcontract
  | cancelFeeShare =>
    cases hsigner
    obtain ⟨_, -, h⟩ := bind_eq_ok.mp h
    obtain ⟨contract, -, h⟩ := bind_eq_ok.mp h
    obtain ⟨f, hf, h⟩ := bind_eq_ok.mp h
    obtain ⟨controller, hcontroller, h⟩ := bind_eq_ok.mp h
    rw [Keeper.deleteFeeShare, hs contract f (demand_eq_ok.mp hf)] at h
    refine ⟨contract, none, fun c' => ?_, by simp, .inl ⟨controller, controlledBy_of_ok hcontroller⟩⟩
    cases hw : f.getWithdrawerAddr k.codec.toBech32 with
    | some withdrawAddr =>
      simp only [hw, ofOption, ok_bind, pure_eq, ok.injEq] at h
      rw [← h, getFeeShare_deleteWithdrawerMap, getFeeShare_deleteDeployerMap, getFeeShare_delete]
    | none =>
      simp only [hw, ofOption, ok_bind, pure_eq, ok.injEq] at h
      rw [← h, getFeeShare_deleteDeployerMap, getFeeShare_delete]
  | updateParams => cases hsigner

/-! ## Every reachable store -/

theorem Filed.replace (hs : Filed k s) {c : AccAddress} {r : Option FeeShare}
    (hrows : ∀ c', getFeeShare t c' = if c = c' then r else getFeeShare s c')
    (hr : ∀ f, r = some f → f.getContractAddr k.codec.toBech32 = some c) : Filed k t := by
  intro c' f hf
  rw [hrows] at hf
  split_ifs at hf with hc
  · exact hc ▸ hr f hf
  · exact hs c' f hf

theorem handle_filed (hs : Filed k s) {op : Op} (h : k.handle s op = .ok t) : Filed k t := by
  obtain ⟨contracts, msg⟩ := op
  cases hsigner : msg.deployer with
  | some signer =>
    obtain ⟨c, r, hrows, hr, -⟩ := handle_eq_ok hs hsigner h
    exact hs.replace hrows hr
  | none =>
    cases msg with
    | updateParams =>
      obtain ⟨_, -, h⟩ := bind_eq_ok.mp h
      obtain ⟨_, -, h⟩ := bind_eq_ok.mp h
      cases h
      intro c f hf
      exact hs c f (by rwa [getFeeShare_set_paramsKey] at hf)
    | registerFeeShare | updateFeeShare | cancelFeeShare => cases hsigner

theorem run_filed (hs : Filed k s) (ops : List Op) : Filed k (run k.step s ops) :=
  run_preserves (fun _ _ hs => orElse_elim hs fun _ h => handle_filed hs h) s ops hs

theorem initFeeShare_filed (hs : Filed k s) {share : FeeShare} (h : k.initFeeShare s share = .ok t) : Filed k t := by
  obtain ⟨s₁, hset, h⟩ := bind_eq_ok.mp h
  obtain ⟨c, hc, h⟩ := bind_eq_ok.mp h
  rw [ofOption_eq_ok] at hc
  rw [setFeeShare_eq hc] at hset
  cases hset
  refine hs.replace (r := some share) (fun c' => ?_) (by rintro f ⟨⟩; exact hc)
  cases hw : share.getWithdrawerAddr k.codec.toBech32 with
  | some withdrawer =>
    simp only [hw, pure_eq, ok.injEq] at h
    rw [← h, getFeeShare_setWithdrawerMap, getFeeShare_setDeployerMap, getFeeShare_set]
  | none =>
    simp only [hw, pure_eq, ok.injEq] at h
    rw [← h, getFeeShare_setDeployerMap, getFeeShare_set]

theorem initGenesis_filed {gs : GenesisState} (h : k.initGenesis gs = .ok s) : Filed k s := by
  unfold Keeper.initGenesis at h
  rcases hparams : setParams .empty gs.params with s₁ | e | _ <;> rw [hparams] at h
  · obtain ⟨_, -, hs₁⟩ := bind_eq_ok.mp hparams
    cases hs₁
    refine (forEach_eq_ok (fun _ _ _ _ hinit hs => ⟨initFeeShare_filed hs hinit, trivial⟩) gs.feeShare 0 _ s h ?_).1
    intro c f hf
    cases hf
  · cases h
  · cases h

/-! ## Panics -/

theorem getContractAdminOrCreatorAddress_eq_panicked {deployer : Bytes} :
    k.getContractAdminOrCreatorAddress contracts contract deployer = .panicked ↔
      (k.codec.accAddressFromBech32 deployer).isSome ∧ contracts contract = none := by
  cases hinfo : contracts contract with
  | none => simp [Keeper.getContractAdminOrCreatorAddress, bind_eq_panicked, hinfo]
  | some info =>
    by_cases hadmin : info.admin = [] <;>
      simp [Keeper.getContractAdminOrCreatorAddress, bind_eq_panicked, hinfo, hadmin]

theorem deployerOf_eq_panicked {contractAddress deployerAddress withdrawerAddress : Bytes} :
    k.deployerOf contracts contract contractAddress deployerAddress withdrawerAddress = .panicked ↔
      contracts contract = none := by
  cases hinfo : contracts contract with
  | none => simp [Keeper.deployerOf, bind_eq_panicked, hinfo]
  | some info =>
    cases hfactory : k.getIfContractWasCreatedFromFactory contracts info <;>
      simp [Keeper.deployerOf, bind_eq_panicked, hinfo, hfactory, getContractAdminOrCreatorAddress_eq_panicked]

end control

/-- A message that gets as far as asking x/wasm for its contract, which x/wasm does not know. -/
def AsksForUnknown (k : Keeper) (contracts : Keeper.Contracts) (s : Store) : Msg → Prop
  | .registerFeeShare contractAddress _ withdrawerAddress => (getParams s).enableFeeShare = true ∧
      (k.codec.accAddressFromBech32 withdrawerAddress).isSome ∧
      ∃ c, k.codec.accAddressFromBech32 contractAddress = some c ∧ isFeeShareRegistered s c = false ∧ contracts c = none
  | .updateFeeShare contractAddress _ withdrawerAddress => (getParams s).enableFeeShare = true ∧
      ∃ c f, k.codec.accAddressFromBech32 contractAddress = some c ∧ getFeeShare s c = some f ∧
        withdrawerAddress ≠ f.withdrawerAddress ∧ contracts c = none
  | .cancelFeeShare contractAddress _ => (getParams s).enableFeeShare = true ∧
      ∃ c f, k.codec.accAddressFromBech32 contractAddress = some c ∧ getFeeShare s c = some f ∧ contracts c = none
  | .updateParams _ _ => False

section panics

variable {k : Keeper} {contracts : Keeper.Contracts} {s : Store}

theorem handle_eq_panicked_iff (hs : Filed k s) {msg : Msg} {signer : Bytes} (hsigner : msg.deployer = some signer)
    (hread : (k.codec.accAddressFromBech32 signer).isSome) :
    k.handle s ⟨contracts, msg⟩ = .panicked ↔ AsksForUnknown k contracts s msg := by
  cases msg with
  | registerFeeShare =>
    simp only [Keeper.handle, Keeper.registerFeeShare, AsksForUnknown, Outcome.require_bind_eq_panicked,
      Outcome.demand_bind_eq_panicked, Outcome.bind_eq_panicked (x := k.deployerOf ..), deployerOf_eq_panicked,
      Bool.not_eq_true', Option.isSome_iff_exists]
    constructor
    · rintro ⟨henabled, c, hc, hnew, w, hw, hnone | ⟨d, -, hset⟩⟩
      · exact ⟨henabled, ⟨w, hw⟩, c, hc, hnew, hnone⟩
      · simp [setFeeShare_eq (getContractAddr_newFeeShare hc ..)] at hset
    · rintro ⟨henabled, ⟨w, hw⟩, c, hc, hnew, hnone⟩
      exact ⟨henabled, c, hc, hnew, w, hw, .inl hnone⟩
  | updateFeeShare contractAddress deployerAddress withdrawerAddress =>
    cases hsigner
    simp only [Keeper.handle, Keeper.updateFeeShare, Outcome.require_bind_eq_panicked,
      Outcome.demand_bind_eq_panicked, Outcome.bind_eq_panicked (x := k.getContractAdminOrCreatorAddress ..),
      getContractAdminOrCreatorAddress_eq_panicked, hread, true_and, bne_iff_ne]
    constructor
    · rintro ⟨henabled, c, hc, f, hf, hne, hnone | ⟨a, -, w, -, w', -, hset⟩⟩
      · exact ⟨henabled, c, f, hc, hf, hne, hnone⟩
      · have hcontract : FeeShare.getContractAddr k.codec.toBech32
            { f with withdrawerAddress := k.codec.string w' } = some c := hs c f hf
        rw [setFeeShare_eq hcontract] at hset
        cases hset
    · rintro ⟨henabled, c, f, hc, hf, hne, hnone⟩
      exact ⟨henabled, c, hc, f, hf, hne, .inl hnone⟩
  | cancelFeeShare =>
    cases hsigner
    simp only [Keeper.handle, Keeper.cancelFeeShare, require_bind_eq_panicked, demand_bind_eq_panicked,
      bind_eq_panicked (x := k.getContractAdminOrCreatorAddress ..), getContractAdminOrCreatorAddress_eq_panicked,
      hread, true_and]
    constructor
    · rintro ⟨henabled, c, hc, f, hf, hnone | ⟨a, -, hdelete⟩⟩
      · exact ⟨henabled, c, f, hc, hf, hnone⟩
      · rw [Keeper.deleteFeeShare, hs c f hf] at hdelete
        cases hw : f.getWithdrawerAddr k.codec.toBech32 <;> simp [hw, ofOption] at hdelete
    · rintro ⟨henabled, c, f, hc, hf, hnone⟩
      exact ⟨henabled, c, hc, f, hf, .inl hnone⟩
  | updateParams => cases hsigner

end panics

/-! ## Control over fees -/

/-- A message of a deployer is handled well: it returns, an error leaves the store alone, and a record is changed by
who may. -/
structure Handled (k : Keeper) (contracts : Keeper.Contracts) (s : Store) (signer : Bytes)
    (r : Exit Err Unit × Store) : Prop where
  returns : r.1 ≠ .panicked ∧ r.1 ≠ .outOfGas
  unchanged : ∀ e, r.1 = .error e → r.2 = s
  authorized : ∀ c, getFeeShare r.2 c ≠ getFeeShare s c → Authorized k contracts s signer c (getFeeShare r.2 c)

theorem readable_of_validateBasic {codec : Bech32} {msg : Msg} {signer : Bytes} (hsigner : msg.deployer = some signer)
    (h : msg.validateBasic codec = .ok ()) : (codec.accAddressFromBech32 signer).isSome := by
  cases msg with
  | registerFeeShare | updateFeeShare | cancelFeeShare =>
    cases hsigner
    obtain ⟨_, hread, -⟩ := bind_eq_ok.mp h
    exact require_eq_ok.mp hread
  | updateParams => cases hsigner

/-- **Who controls the fees of a contract**: from any genesis, over any messages and with any contracts in x/wasm, a
deployer's message that passes `ValidateBasic` is handled well if and only if it asks for no contract that x/wasm does
not know. -/
theorem fees_controlled_iff (k : Keeper) (gs : GenesisState) (s₀ : Store) (hinit : k.initGenesis gs = .ok s₀)
    (ops : List Op) (contracts : Keeper.Contracts) (msg : Msg) (signer : Bytes) (hsigner : msg.deployer = some signer)
    (hbasic : msg.validateBasic k.codec.toBech32 = .ok ()) :
    Handled k contracts (run k.step s₀ ops) signer (k.deliver contracts msg (run k.step s₀ ops)) ↔
      ¬ AsksForUnknown k contracts (run k.step s₀ ops) msg := by
  have hs := run_filed (initGenesis_filed hinit) ops
  generalize run k.step s₀ ops = s at hs ⊢
  have hpanics : k.handle s ⟨contracts, msg⟩ = .panicked ↔ _ :=
    handle_eq_panicked_iff hs hsigner (readable_of_validateBasic hsigner hbasic)
  have hrealized : (k.deliver contracts msg).Realizes s _ := deliver_realizes msg
  rcases hhandle : k.handle s ⟨contracts, msg⟩ with t | e | _ <;> rw [hhandle] at hpanics hrealized
  · refine iff_of_true ?_ fun hasks => by cases hpanics.mpr hasks
    have hdeliver : k.deliver contracts msg s = (.ok (), t) := hrealized
    obtain ⟨c, r, hrows, -, hauthorized⟩ := handle_eq_ok hs hsigner hhandle
    rw [hdeliver]
    refine ⟨by simp, by simp, fun c' hchanged => ?_⟩
    rw [hrows] at hchanged ⊢
    split_ifs at hchanged ⊢ with hc
    · exact hc ▸ hauthorized
    · exact absurd rfl hchanged
  · refine iff_of_true ?_ fun hasks => by cases hpanics.mpr hasks
    have hdeliver : k.deliver contracts msg s = (.error e, s) := hrealized
    rw [hdeliver]
    exact ⟨by simp, fun _ _ => rfl, fun c' hchanged => absurd rfl hchanged⟩
  · exact iff_of_false (fun hhandled => hhandled.returns.1 hrealized) (not_not_intro (hpanics.mp rfl))

open Sample in
/-- Two contracts of the account `1`, of which it has registered one and now registers the other. -/
theorem registered_by_creator :
    let s := run keeper.step (chain start) [register (contract 4) (account 1)]
    let msg := Msg.registerFeeShare (text (contract 3)) (text (account 1)) (text (account 2))
    Handled keeper (madeBy (account 1)) s (text (account 1)) (keeper.deliver (madeBy (account 1)) msg s) ∧
      getFeeShare (keeper.deliver (madeBy (account 1)) msg s).2 (contract 3) =
        some ⟨text (contract 3), text (account 1), text (account 2)⟩ := by
  intro s msg
  refine ⟨(fees_controlled_iff keeper start (chain start) initGenesis_start [register (contract 4) (account 1)]
    (madeBy (account 1)) msg (text (account 1)) rfl (by decide +kernel)).mpr ?_, by decide +kernel⟩
  rintro ⟨-, -, c, hc, -, hnone⟩
  obtain rfl : contract 3 = c := Option.some.inj hc
  cases hnone

open Sample in
/-- A contract that does not exist is registered. -/
theorem unknown_contract_panics :
    let msg := Msg.registerFeeShare (text (contract 9)) (text (account 1)) (text (account 1))
    msg.validateBasic keeper.codec.toBech32 = .ok () ∧
      (keeper.deliver (madeBy (account 1)) msg (chain start)).1 = .panicked := by
  decide +kernel

end Feeshare
