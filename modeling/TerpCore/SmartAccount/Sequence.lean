/-
  The sequence number of an account: who reads it, and that only the increment at the end of the ante handlers
  changes it.
-/
import TerpCore.SmartAccount.App
import TerpCore.SmartAccount.Ids

namespace SmartAccount

open Lib Outcome

variable {ρ : Type}

/-- An authenticator that the manager can give out. -/
def Keeper.Issues (k : Keeper ρ) (ath : Authenticator ρ) : Prop :=
  ∃ type registered config, k.authenticatorManager type = some registered ∧
    registered.initializeConfig config = .ok (some ath)

/-- All the code of other modules that the application calls has a property. -/
structure OtherModules (app : App ρ) (P : Code ρ → Prop) : Prop where
  setUp : ∀ tx, P (app.setUp tx)
  checkSignatures : ∀ tx, P (app.checkSignatures tx)
  setPubKeys : ∀ tx, P (app.setPubKeys tx)
  verifySignatures : ∀ tx, P (app.verifySignatures tx)
  redundantRelay : ∀ tx, P (app.redundantRelay tx)
  router : ∀ msg, P (app.router msg)
  deductFee : ∀ tx simulate, P (app.decorator.deductFeeDecorator.anteHandle tx simulate)
  track : ∀ ath request, app.keeper.Issues ath → P (ath.track request)
  confirmExecution : ∀ ath request, app.keeper.Issues ath → P (ath.confirmExecution request)
  onAuthenticatorAdded : ∀ type registered account config id,
    app.keeper.authenticatorManager type = some registered → P (registered.onAuthenticatorAdded account config id)
  onAuthenticatorRemoved : ∀ type registered account config id,
    app.keeper.authenticatorManager type = some registered → P (registered.onAuthenticatorRemoved account config id)

/-- The sequence number of an account, 0 if there is none. -/
def sequenceOf (s : MultiStore ρ) (a : Bytes) : UInt64 := ((s.accounts.get a).map Account.sequence).getD 0

/-- The fees that are deducted, and the sequence number of an account. -/
def standing (a : Bytes) (ctx : Context ρ) : List Tx × UInt64 := (ctx.store.fees, sequenceOf ctx.store a)

/-- Code that leaves the sequence number of the account alone. -/
def KeepsSequence (a : Bytes) (code : Code ρ) : Prop :=
  ∀ ctx, sequenceOf (code ctx).store a = sequenceOf ctx.store a

/-- The code of other modules leaves the sequence number of the account alone. -/
abbrev SequenceKept (app : App ρ) (a : Bytes) : Prop := OtherModules app (KeepsSequence a)

/-! ## Reading it -/

section reads

open Proc

variable {k : Keeper ρ} {ak : AccountKeeper} {ctx ctx' : Context ρ} {a : Bytes}

theorem getAccount_eq_ok {address : Bytes} {acc : Option Account} (h : ak.getAccount address ctx = (.ok acc, ctx')) :
    acc = ctx.store.accounts.get address ∧ ctx'.store = ctx.store := by
  have hstore : ctx'.store = ctx.store := congrArg (fun f => f.2.1) ((keeps_getAccount ak address).of_eq h)
  obtain ⟨_, _, hget, hread⟩ := bind_eq_ok.mp h
  cases hget
  obtain ⟨_, _, -, hpure⟩ := bind_eq_ok.mp hread
  exact ⟨(pure_eq_ok.mp hpure).1.symm, hstore⟩

theorem getSignerData_eq_ok {account : Bytes} {data : SignerData}
    (h : getSignerData ak account ctx = (.ok data, ctx')) : data.sequence = sequenceOf ctx.store account := by
  obtain ⟨base, ctx₁, hbase, h₁⟩ := bind_eq_ok.mp h
  obtain ⟨rfl, -⟩ := getAccount_eq_ok hbase
  obtain ⟨_, _, hget, h₂⟩ := bind_eq_ok.mp h₁
  rcases hacc : ctx.store.accounts.get account with _ | acc <;> rw [hacc] at h₂
  · dsimp only at h₂
    split at h₂
    · obtain ⟨rfl, -⟩ := pure_eq_ok.mp h₂
      simp [sequenceOf, hacc]
    · cases h₂
  · obtain ⟨rfl, -⟩ := pure_eq_ok.mp h₂
    simp [sequenceOf, hacc]

theorem extractExplicitTxData_eq_ok {tx : Tx} {data : SignerData} {txData : ExplicitTxData}
    (h : extractExplicitTxData tx data = .ok txData) : txData.accountSequence = data.sequence := by
  unfold extractExplicitTxData at h
  split at h
  · cases h
  · cases h
  · obtain ⟨_, -, hok⟩ := bind_eq_ok.mp h
    cases hok
    rfl

theorem extractSignatures_eq_ok {txData : ExplicitTxData} {account : Bytes} {rp : ReplayProtection} :
    ∀ {pairs : List (Bytes × SignatureV2)} {signatures : List Bytes} {own : Bytes} {r : List Bytes × Bytes},
      extractSignatures txData account rp pairs signatures own = .ok r →
        ∀ signature, (account, signature) ∈ pairs → rp txData signature = .ok ()
  | [], _, _, _, _ => by simp
  | (signer, signature) :: rest, signatures, own, r, h => by
    unfold extractSignatures at h
    split at h
    · cases h
    · intro signature' hmem
      split at h
      · obtain ⟨_, hcheck, hrest⟩ := bind_eq_ok.mp h
        rcases List.mem_cons.mp hmem with heq | hmem
        · cases heq
          exact hcheck
        · exact extractSignatures_eq_ok hrest signature' hmem
      · rename_i hsigner
        rcases List.mem_cons.mp hmem with heq | hmem
        · exact absurd (Prod.mk.inj heq).1.symm hsigner
        · exact extractSignatures_eq_ok h signature' hmem

/-- A signature of the account in the transaction is for its current sequence number. -/
def Current (s : MultiStore ρ) (a : Bytes) (tx : Tx) : Prop :=
  ∃ signers signatures, getSignerAndSignatures tx = .ok (signers, signatures) ∧
    ∀ signature, (a, signature) ∈ signers.zip signatures → signature.sequence = sequenceOf s a

theorem generateAuthenticationRequest_eq_ok {getSignBytes : SignBytes} {args : RequestArgs}
    {request : AuthenticationRequest}
    (h : generateAuthenticationRequest ak getSignBytes args sequenceMatch ctx = (.ok request, ctx')) :
    Current ctx.store args.account args.tx := by
  unfold generateAuthenticationRequest at h
  rcases hsigners : args.msg.signers with _ | ⟨_ | ⟨signer, others⟩⟩ <;> rw [hsigners] at h
  · cases h
  · cases h
  · obtain ⟨_, _, hrequire, h₁⟩ := bind_eq_ok.mp h
    obtain ⟨-, rfl⟩ := require_eq_ok.mp hrequire
    obtain ⟨⟨signers, signatures⟩, _, hsigs, h₂⟩ := bind_eq_ok.mp h₁
    obtain ⟨data, _, hdata, h₃⟩ := bind_eq_ok.mp h₂
    obtain ⟨txData, _, htxData, h₄⟩ := bind_eq_ok.mp h₃
    obtain ⟨r, _, hextract, -⟩ := bind_eq_ok.mp h₄
    simp only [mapError_eq_ok, ofOutcome_eq_ok] at hsigs htxData hextract
    obtain ⟨hsigs, rfl⟩ := hsigs
    refine ⟨signers, signatures, hsigs, fun signature hmem => ?_⟩
    have hmatch := extractSignatures_eq_ok hextract.1 signature hmem
    rw [sequenceMatch, Outcome.require_eq_ok, decide_eq_true_iff,
      extractExplicitTxData_eq_ok htxData.1, getSignerData_eq_ok hdata] at hmatch
    exact hmatch

theorem getInitializedAuthenticatorForAccount_eq_ok {account : Bytes} {id id' : UInt64} {ath : Authenticator ρ}
    (h : k.getInitializedAuthenticatorForAccount account id ctx = (.ok ⟨id', some ath⟩, ctx')) :
    k.Issues ath := by
  obtain ⟨data, ctx₁, -, h₁⟩ := bind_eq_ok.mp h
  rcases hmanager : k.authenticatorManager data.type with _ | registered <;> rw [hmanager] at h₁
  · cases h₁
  · rcases hinit : registered.initializeConfig data.config with (_ | ath') | e | _ <;>
      simp only [hinit] at h₁
    · cases h₁
    · obtain ⟨heq, -⟩ := pure_eq_ok.mp h₁
      cases heq
      exact ⟨_, registered, data.config, hmanager, hinit⟩
    · cases h₁
    · cases h₁

theorem MsgAuthenticated.current {ad : AuthenticatorDecorator ρ} {f : TxFee} {tx : Tx} {simulate : Bool} {i : ℕ}
    {msg : Msg} {t : Track ρ} (h : MsgAuthenticated ad f tx simulate i msg ctx ctx' t) :
    Current ctx.store t.account tx ∧ ad.smartAccountKeeper.Issues t.ath := by
  obtain ⟨selectedId, id, request, ctx₁, ctx₂, -, hath, hrequest, -⟩ := h.request
  have hstore : ctx₁.store = ctx.store :=
    congrArg (fun f => f.2.1) ((keeps_getInitializedAuthenticatorForAccount _ _ _).of_eq hath)
  have hcurrent := generateAuthenticationRequest_eq_ok hrequest
  rw [hstore] at hcurrent
  exact ⟨hcurrent, getInitializedAuthenticatorForAccount_eq_ok hath⟩

theorem verifySequences_eq_ok {tx : Tx} {u : Unit} (h : verifySequences ak tx ctx = (.ok u, ctx')) :
    Current ctx.store a tx := by
  obtain ⟨⟨signers, signatures⟩, _, hsigs, h₁⟩ := bind_eq_ok.mp h
  obtain ⟨hread, rfl⟩ := ofOutcome_eq_ok.mp hsigs
  obtain ⟨_, _, hloop, -⟩ := bind_eq_ok.mp h₁
  refine ⟨signers, signatures, hread, fun signature hmem => ?_⟩
  obtain ⟨_, r, _, _, hr, hbody⟩ := forEach_eq_ok_mem (fun _ p => by
    refine keeps_bind (keeps_getAccount ak p.1) fun acc => ?_
    split
    · exact keeps_fail _
    · exact keeps_require _ _) hloop _ hmem
  obtain ⟨acc, _, hacc, h₂⟩ := bind_eq_ok.mp hbody
  obtain ⟨rfl, -⟩ := getAccount_eq_ok hacc
  have hstore : r.store = ctx.store := congrArg (fun f => f.2.1) hr
  rw [hstore] at h₂
  rcases hget : ctx.store.accounts.get a with _ | account <;> rw [hget] at h₂
  · cases h₂
  · have hseq := (require_eq_ok.mp h₂).1
    simpa [sequenceOf, hget] using hseq

theorem keeps_verifySequences (tx : Tx) :
    Keeps (Same Context.frame) (verifySequences ak tx : Proc (Context ρ) Err Unit) := by
  refine keeps_bind (keeps_ofOutcome _) fun _ => keeps_bind (keeps_forEach _ 0 fun _ p _ => ?_) fun _ =>
    keeps_pure _
  refine keeps_bind (keeps_getAccount ak p.1) fun acc => ?_
  split
  · exact keeps_fail _
  · exact keeps_require _ _

end reads

/-! ## Writing it -/

section increment

open Proc

variable {ak : AccountKeeper} {a : Bytes}

theorem setAccount_eq_ok {address : Bytes} {acc : Account} {ctx ctx' : Context ρ} {u : Unit}
    (h : ak.setAccount address acc ctx = (.ok u, ctx')) :
    ctx'.store = { ctx.store with accounts := ctx.store.accounts.set address acc } := by
  obtain ⟨_, ctx₁, hgas, hmodify⟩ := bind_eq_ok.mp h
  have hstore : ctx₁.store = ctx.store := congrArg (fun f => f.2.1) ((keeps_consumeGas _).of_eq hgas)
  cases hmodify
  dsimp only
  rw [hstore]

theorem sequenceOf_set (s : MultiStore ρ) (address : Bytes) (acc : Account) :
    sequenceOf { s with accounts := s.accounts.set address acc } a =
      if address = a then acc.sequence else sequenceOf s a := by
  unfold sequenceOf
  rw [KVStore.get_set]
  split <;> simp

theorem forEach_increment : ∀ {signers : List Bytes} {i : ℕ} {ctx ctx' : Context ρ} {us : List Unit},
    forEach (fun _ signer => do
      match ← ak.getAccount signer with
      | none => ofOutcome .panicked
      | some acc => ak.setAccount signer { acc with sequence := acc.sequence + 1 }) i signers ctx =
        (.ok us, ctx') →
      standing a ctx' = (ctx.store.fees, sequenceOf ctx.store a + UInt64.ofNat (signers.count a))
  | [], _, _, _, _, h => by
    obtain ⟨-, rfl⟩ := pure_eq_ok.mp h
    simp [standing]
  | signer :: signers, i, ctx, ctx', us, h => by
    obtain ⟨_, ctx₁, hfirst, h₁⟩ := bind_eq_ok.mp h
    obtain ⟨_, ctx₂, hrest, h₂⟩ := bind_eq_ok.mp h₁
    obtain ⟨-, rfl⟩ := pure_eq_ok.mp h₂
    obtain ⟨acc, ctx₀, hacc, hset⟩ := bind_eq_ok.mp hfirst
    obtain ⟨rfl, hstore⟩ := getAccount_eq_ok hacc
    rcases hget : ctx.store.accounts.get signer with _ | account <;> rw [hget] at hset
    · cases hset
    · rw [forEach_increment hrest, setAccount_eq_ok hset, hstore, sequenceOf_set]
      by_cases hsigner : signer = a
      · subst hsigner
        simp [sequenceOf, hget, UInt64.add_assoc, UInt64.add_comm 1]
      · simp [hsigner]

/-- The signers of a transaction. -/
def signersOf (tx : Tx) : List Bytes := (tx.sigTx.bind SigTx.signers).getD []

theorem incrementSequence_eq_ok {tx : Tx} {ctx ctx' : Context ρ} {u : Unit}
    (h : incrementSequence ak tx ctx = (.ok u, ctx')) :
    standing a ctx' = (ctx.store.fees, sequenceOf ctx.store a + UInt64.ofNat ((signersOf tx).count a)) := by
  unfold incrementSequence at h
  rcases hsig : tx.sigTx with _ | sigTx <;> rw [hsig] at h
  · cases h
  · rcases hsigners : sigTx.signers with _ | signers <;> simp only [hsigners] at h
    · cases h
    · obtain ⟨_, _, hloop, hpure⟩ := bind_eq_ok.mp h
      obtain ⟨-, rfl⟩ := pure_eq_ok.mp hpure
      rw [forEach_increment hloop]
      simp [signersOf, hsig, hsigners]

end increment

/-! ## Messages of the module -/

section rows

open Proc

variable {app : App ρ} {R : Context ρ → Context ρ → Prop} [Std.Refl R] [IsTrans (Context ρ) R]

/-- A relation between contexts that reading keeps, and writing the rows that are not the parameters. -/
structure RowsKept (k : Keeper ρ) (R : Context ρ → Context ρ → Prop) : Prop where
  frame : ∀ ctx ctx' : Context ρ, ctx'.frame = ctx.frame → R ctx ctx'
  set : ∀ key row, paramsKey ≠ key → Keeps R (k.set key row)
  delete : ∀ key, paramsKey ≠ key → Keeps R (k.delete key)

omit [Std.Refl R] [IsTrans (Context ρ) R] in
theorem RowsKept.reads {k : Keeper ρ} (h : RowsKept k R) {α : Type} {p : Proc (Context ρ) Err α}
    (hp : Keeps (Same Context.frame) p) : Keeps R p := fun ctx => h.frame _ _ (hp ctx)

theorem keeps_getIsSmartAccountActive (k : Keeper ρ) : Keeps (Same Context.frame) k.getIsSmartAccountActive :=
  keeps_bind (keeps_getParams k) fun _ => keeps_pure _

theorem keeps_isCircuitBreakActive (k : Keeper ρ) (tx : Tx) :
    Keeps (Same Context.frame) (k.isCircuitBreakActive tx) := by
  refine keeps_bind (keeps_getIsSmartAccountActive k) fun active => ?_
  split <;> exact keeps_pure _

variable (h : RowsKept app.keeper R) (hother : OtherModules app fun code => Keeps R code.exec)
include h

theorem keeps_initializeOrGetNextAuthenticatorId : Keeps R app.keeper.initializeOrGetNextAuthenticatorId := by
  refine keeps_bind (h.reads (keeps_getRow _ _)) fun row => ?_
  split
  · exact keeps_bind (h.set _ _ Keeper.paramsKey_ne_counter) fun _ => keeps_pure _
  · exact keeps_pure _
  · exact keeps_ofOutcome _

include hother

theorem keeps_addAuthenticator (account type config : Bytes) :
    Keeps R (app.keeper.addAuthenticator account type config) := by
  unfold Keeper.addAuthenticator
  split
  · exact keeps_fail _
  · rename_i registered hmanager
    refine keeps_bind (keeps_initializeOrGetNextAuthenticatorId h) fun id => ?_
    refine keeps_bind (keeps_mapError (hother.onAuthenticatorAdded _ _ _ _ _ hmanager)) fun _ => ?_
    refine keeps_bind (h.set _ _ Keeper.paramsKey_ne_counter) fun _ => ?_
    exact keeps_bind (h.set _ _ (Keeper.paramsKey_ne_keyAccountId _ _)) fun _ => keeps_pure _

theorem keeps_removeAuthenticator (account : Bytes) (id : UInt64) :
    Keeps R (app.keeper.removeAuthenticator account id) := by
  refine keeps_bind (h.reads (keeps_getRow _ _)) fun row => ?_
  split
  · exact keeps_fail _
  · split
    · exact keeps_fail _
    · rename_i registered hmanager
      refine keeps_bind (keeps_mapError (hother.onAuthenticatorRemoved _ _ _ _ _ hmanager)) fun _ => ?_
      exact h.delete _ (Keeper.paramsKey_ne_keyAccountId _ _)
  · exact keeps_fail _

/-- All messages keep the relation, if setting the state of the module does. -/
theorem keeps_handle {msg : Msg} (hactive : ∀ sender active, msg.call = .setActiveState sender active →
      Keeps R (app.keeper.handleSetActiveState sender active)) : Keeps R (app.handle msg) := by
  unfold App.handle
  split
  · refine keeps_bind (h.reads (keeps_getIsSmartAccountActive _)) fun _ => keeps_bind (keeps_require _ _) fun _ => ?_
    split
    · exact keeps_fail _
    · exact keeps_bind (keeps_addAuthenticator h hother _ _ _) fun _ => keeps_pure _
  · refine keeps_bind (h.reads (keeps_getIsSmartAccountActive _)) fun _ => keeps_bind (keeps_require _ _) fun _ => ?_
    split
    · exact keeps_fail _
    · exact keeps_removeAuthenticator h hother _ _
  · exact hactive _ _ ‹_›
  · exact hother.router msg

omit h [Std.Refl R] [IsTrans (Context ρ) R] in
theorem keeps_track_of_issues {t : Track ρ} (ht : app.keeper.Issues t.ath) : Keeps R t.run :=
  keeps_mapError (hother.track t.ath t.authenticationRequest ht)

omit h in
/-- The calls of `Track` keep the relation: the manager gave out all the authenticators. -/
theorem keeps_trackCalls {tx : Tx} {simulate : Bool} {entry : TxContext ρ} {p : Payer ρ} {i : ℕ}
    {tracks : List (Track ρ)} {ctx ctx' : Context ρ} (hp : PayerAuthenticated app.decorator tx simulate entry p)
    (hothers : forEach (app.decorator.authenticateMsg p.fee tx simulate) i p.rest ctx = (.ok tracks, ctx')) :
    Keeps R (forEach (fun _ (t : Track ρ) => t.run) 0 (p.track :: tracks)) := by
  refine keeps_forEach _ 0 fun _ t ht => keeps_track_of_issues hother ?_
  rcases List.mem_cons.mp ht with rfl | ht
  · exact (authenticateMsg_eq_ok hp.authenticated).current.2
  · exact forEach_eq_ok_results (fun _ _ _ _ _ hauth => (authenticateMsg_eq_ok hauth).current.2) hothers t ht

end rows

/-! ## Keeping it -/

section keeps

open Proc

variable {app : App ρ} {a : Bytes} (h : SequenceKept app a)

theorem keeps_standing_of_frame {α : Type} {p : Proc (Context ρ) Err α} (hp : Keeps (Same Context.frame) p) :
    Keeps (Same (standing a)) p :=
  fun ctx => congrArg (fun f : Header × MultiStore ρ × Option UInt64 => (f.2.1.fees, sequenceOf f.2.1 a)) (hp ctx)

theorem keeps_exec {code : Code ρ} (hcode : KeepsSequence a code) : Keeps (Same (standing a)) code.exec :=
  fun ctx => Prod.ext rfl (hcode ctx)

theorem keeps_setRow (k : Keeper ρ) (key : Bytes) (row : Row) : Keeps (Same (standing a)) (k.set key row) :=
  keeps_bind (keeps_standing_of_frame (keeps_consumeGas _)) fun _ _ => rfl

theorem rowsKept_standing (k : Keeper ρ) : RowsKept k (Same (standing a)) where
  frame _ _ h := congrArg (fun f : Header × MultiStore ρ × Option UInt64 => (f.2.1.fees, sequenceOf f.2.1 a)) h
  set key row _ := keeps_setRow k key row
  delete _ _ := keeps_bind (keeps_standing_of_frame (keeps_consumeGas _)) fun _ _ => rfl

theorem keeps_setActiveState (k : Keeper ρ) (active : Bool) : Keeps (Same (standing a)) (k.setActiveState active) := by
  refine keeps_bind (keeps_standing_of_frame (keeps_getParams k)) fun params => ?_
  unfold Keeper.setParams
  split
  · exact keeps_bind (keeps_ofOutcome _) fun _ => keeps_setRow k _ _
  · exact keeps_setRow k _ _

theorem keeps_handleSetActiveState (k : Keeper ρ) (sender : Bytes) (active : Bool) :
    Keeps (Same (standing a)) (k.handleSetActiveState sender active) := by
  refine keeps_bind (keeps_ofOutcome _) fun signer => ?_
  split
  · exact keeps_bind (keeps_require _ _) fun _ => keeps_setActiveState k _
  · refine keeps_bind (keeps_standing_of_frame (keeps_getParams k)) fun _ => ?_
    exact keeps_bind (keeps_require _ _) fun _ => keeps_setActiveState k _

theorem OtherModules.imp {P Q : Code ρ → Prop} (h : OtherModules app P) (hPQ : ∀ code, P code → Q code) :
    OtherModules app Q where
  setUp tx := hPQ _ (h.setUp tx)
  checkSignatures tx := hPQ _ (h.checkSignatures tx)
  setPubKeys tx := hPQ _ (h.setPubKeys tx)
  verifySignatures tx := hPQ _ (h.verifySignatures tx)
  redundantRelay tx := hPQ _ (h.redundantRelay tx)
  router msg := hPQ _ (h.router msg)
  deductFee tx simulate := hPQ _ (h.deductFee tx simulate)
  track ath request hath := hPQ _ (h.track ath request hath)
  confirmExecution ath request hath := hPQ _ (h.confirmExecution ath request hath)
  onAuthenticatorAdded _ _ account config id hmanager := hPQ _ (h.onAuthenticatorAdded _ _ account config id hmanager)
  onAuthenticatorRemoved _ _ account config id hmanager :=
    hPQ _ (h.onAuthenticatorRemoved _ _ account config id hmanager)

include h

theorem keeps_runMsgs (tx : Tx) : Keeps (Same (standing a)) (app.runMsgs tx) :=
  keeps_bind (keeps_forEach _ 0 fun _ _ _ => keeps_handle (rowsKept_standing _) (h.imp fun _ => keeps_exec)
    fun sender active _ => keeps_handleSetActiveState _ sender active) fun _ => keeps_pure _

omit h in
theorem prepareConfirm_issues {feeTx : FeeTx} {selected : List UInt64} {tx : Tx} {i : ℕ} {msg : Msg}
    {c : Confirm ρ} {ctx ctx' : Context ρ}
    (hc : app.prepareConfirm feeTx selected tx i msg ctx = (.ok c, ctx')) : app.keeper.Issues c.ath := by
  unfold App.prepareConfirm at hc
  rcases hsigners : msg.signers with _ | ⟨_ | ⟨account, signers⟩⟩ <;> rw [hsigners] at hc
  · cases hc
  · cases hc
  · obtain ⟨_, _, -, hc⟩ := bind_eq_ok.mp hc
    obtain ⟨⟨id, authenticator⟩, _, hselected, hc⟩ := bind_eq_ok.mp hc
    obtain ⟨_, _, -, hc⟩ := bind_eq_ok.mp hc
    obtain ⟨ath, _, hath, hc⟩ := bind_eq_ok.mp hc
    obtain ⟨rfl, -⟩ := pure_eq_ok.mp hc
    simp only [ofOutcome_eq_ok, ofOption_eq_ok] at hath
    obtain ⟨rfl, -⟩ := hath
    exact getInitializedAuthenticatorForAccount_eq_ok (mapError_eq_ok.mp hselected)

omit h in
theorem keeps_prepareConfirm (feeTx : FeeTx) (selected : List UInt64) (tx : Tx) (i : ℕ) (msg : Msg) :
    Keeps (Same Context.frame) (app.prepareConfirm feeTx selected tx i msg) := by
  unfold App.prepareConfirm
  split
  · exact keeps_fail _
  · exact keeps_ofOutcome _
  · refine keeps_bind (keeps_ofOutcome _) fun _ => ?_
    refine keeps_bind (keeps_mapError (keeps_getInitializedAuthenticatorForAccount _ _ _)) fun _ => ?_
    refine keeps_bind (keeps_mapError (keeps_generateAuthenticationRequest _ _ _ _)) fun _ => ?_
    exact keeps_bind (keeps_ofOutcome _) fun _ => keeps_pure _

omit h in
theorem keeps_onCtx {α : Type} {p : Proc (Context ρ) Err α} (hp : Keeps (Same (standing a)) p) :
    Keeps (Same fun s : PostState ρ => standing a s.ctx) (PostState.onCtx p) :=
  keeps_zoom hp fun _ _ hc => hc

theorem keeps_postHandle (tx : Tx) : Keeps (Same fun s : PostState ρ => standing a s.ctx) (app.postHandle tx) := by
  refine keeps_bind (keeps_onCtx (keeps_standing_of_frame (keeps_isCircuitBreakActive _ tx))) fun route => ?_
  split
  · exact keeps_pure _
  · split
    · exact keeps_fail _
    · rename_i selected _ feeTx hfee
      refine keeps_bind (keeps_forEach _ 0 fun i msg _ => ?_) fun _ => keeps_pure _
      refine keeps_bind_of_ok (keeps_onCtx (keeps_standing_of_frame
        (keeps_prepareConfirm feeTx selected tx i msg))) fun s c t hc => ?_
      obtain ⟨ctx, hprepare, -⟩ := zoom_eq_ok.mp hc
      have hexec := keeps_exec (h.confirmExecution c.ath c.authenticationRequest (prepareConfirm_issues hprepare))
      intro s
      exact keeps_mapError hexec s.ctx

theorem keeps_deductFee (tx : Tx) (simulate : Bool) :
    Keeps (Same fun ctx : Context ρ => sequenceOf ctx.store a) (app.decorator.deductFeeDecorator.exec tx simulate) :=
  keeps_bind (fun ctx => congrArg Prod.snd (keeps_exec (h.deductFee tx simulate) ctx)) fun _ _ => rfl

end keeps

namespace Sample

theorem issues_cases {ath : Authenticator Unit} (h : keeper.Issues ath) :
    ∃ type, ∃ accepts : AuthenticationRequest → Bool, ∃ confirms,
      (∀ request, accepts request = true → signed request = true) ∧
        ath = ⟨type, 10, fun request => returns (accepts request), fun _ => returns true,
          fun _ => returns confirms⟩ := by
  obtain ⟨type, registered, config, hmanager, hinit⟩ := h
  obtain ⟨accepts, confirms, hsigned, rfl⟩ := manager_cases hmanager
  exact ⟨type, accepts, confirms, hsigned, (Option.some.inj (ok.inj hinit)).symm⟩

/-- The code around the sample accounts writes nothing. -/
theorem otherModules {P : Code Unit → Prop} (hP : ∀ code : Code Unit, (∀ ctx, (code ctx).store = ctx.store) → P code) :
    OtherModules app P where
  setUp _ := hP _ fun _ => rfl
  checkSignatures _ := hP _ fun _ => rfl
  setPubKeys _ := hP _ fun _ => rfl
  verifySignatures _ := hP _ fun _ => rfl
  redundantRelay _ := hP _ fun _ => rfl
  router _ := hP _ fun _ => rfl
  deductFee _ _ := hP _ fun _ => rfl
  track ath request hissues := by
    obtain ⟨_, _, _, -, rfl⟩ := issues_cases hissues
    exact hP _ fun _ => rfl
  confirmExecution ath request hissues := by
    obtain ⟨_, _, _, -, rfl⟩ := issues_cases hissues
    exact hP _ fun _ => rfl
  onAuthenticatorAdded type registered account config id hmanager := by
    obtain ⟨_, _, -, rfl⟩ := manager_cases hmanager
    exact hP _ fun _ => rfl
  onAuthenticatorRemoved type registered account config id hmanager := by
    obtain ⟨_, _, -, rfl⟩ := manager_cases hmanager
    exact hP _ fun _ => rfl

end Sample

end SmartAccount
