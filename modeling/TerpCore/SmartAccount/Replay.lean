/-
  How often the fee of a transaction is taken.  The sequence numbers are raised only at the end of the ante
  handlers, but the fee is in the block as soon as the first message is authenticated: a transaction is charged
  once as long as nothing fails in between (`Settles`).
-/
import TerpCore.Lib.Run
import TerpCore.SmartAccount.Sequence
import TerpCore.SmartAccount.Flow

namespace SmartAccount

open Lib Proc List

variable {ρ : Type}

/-- A transaction in a block. -/
structure Delivery where
  header : Header
  tx : Tx

/-- The stores of the chain after a delivery. -/
def App.deliver (app : App ρ) (s : MultiStore ρ) (d : Delivery) : MultiStore ρ :=
  (app.runTx d.header s d.tx).store

/-- The account of the first message is among the signers of the transaction. -/
structure SignedBy (tx : Tx) (a : Bytes) : Prop where
  first : ∃ msg msgs signers, tx.msgs = msg :: msgs ∧ msg.signers = some (a :: signers)
  signer : a ∈ signersOf tx

/-! ## What is left to do when the fee is paid -/

section settles

variable (app : App ρ) (tx : Tx)

/-- Where the authenticators are asked: the decorators before let the transaction through, and the circuit breaker is
not active. -/
def Entered (t entry : TxContext ρ) : Prop :=
  ∃ ctx₁ selected ctx₂ ctx₃, (app.setUp tx).exec t.ctx = (.ok (), ctx₁) ∧
    app.keeper.isCircuitBreakActive tx ctx₁ = (.ok (some selected), ctx₂) ∧
    (app.checkSignatures tx).exec ctx₂ = (.ok (), ctx₃) ∧ entry = { t with ctx := ctx₃ }

/-- The first message is authenticated, and the fee deducted. -/
def Charged (t : TxContext ρ) (p : Payer ρ) (gasMeter : GasMeter) (paid : Context ρ) : Prop :=
  ∃ entry, Entered app tx t entry ∧ PayerAuthenticated app.decorator tx false entry p ∧
    FeeDeducted app.decorator tx false p gasMeter paid

/-- After the fee: the later messages are authenticated, `Track` is called for every message, the sequence numbers are
raised. -/
def Completes (p : Payer ρ) (gasMeter : GasMeter) (paid : Context ρ) : Prop :=
  ∃ tracks others done tracked out,
    forEach (app.decorator.authenticateMsg p.fee tx false) 1 p.rest ⟨paid.header, paid.store, gasMeter⟩ =
      (.ok tracks, others) ∧
    forEach (fun _ (t : Track ρ) => t.run) 0 (p.track :: tracks) others = (.ok done, tracked) ∧
    incrementSequence app.decorator.accountKeeper tx tracked = (.ok (), out)

/-- A transaction that pays its fee, delivered in these stores, completes. -/
def Settles (header : Header) (s : MultiStore ρ) : Prop :=
  ∀ p gasMeter paid, Charged app tx (App.txContext header s tx) p gasMeter paid → Completes app tx p gasMeter paid

variable {app tx} {t : TxContext ρ} {p : Payer ρ} {gasMeter : GasMeter} {paid : Context ρ}

theorem anteHandler_of_charged (h : Charged app tx t p gasMeter paid) :
    (app.anteHandler tx t).1.isOk = true ↔ Completes app tx p gasMeter paid := by
  obtain ⟨entry, ⟨ctx₁, selected, ctx₂, ctx₃, hsetUp, hroute, hcheck, rfl⟩, hp, hfee⟩ := h
  set next : Proc (TxContext ρ) Err Unit := onContext (incrementSequence app.decorator.accountKeeper tx)
  have hsetUp' : onContext (app.setUp tx).exec t = (.ok (), { t with ctx := ctx₁ }) :=
    zoom_eq_ok.mpr ⟨ctx₁, hsetUp, rfl⟩
  have hroute' : onContext (app.keeper.isCircuitBreakActive tx) { t with ctx := ctx₁ } =
      (.ok (some selected), { t with ctx := ctx₂ }) := zoom_eq_ok.mpr ⟨ctx₂, hroute, rfl⟩
  have hcheck' : onContext (app.checkSignatures tx).exec { t with ctx := ctx₂ } = (.ok (), { t with ctx := ctx₃ }) :=
    zoom_eq_ok.mpr ⟨ctx₃, hcheck, rfl⟩
  have hflow : app.anteHandler tx t =
      (app.decorator.anteHandle tx false next >>= fun _ => pure Flow.authenticator) { t with ctx := ctx₃ } := by
    rw [App.anteHandler, bind_of_ok hsetUp', bind_of_ok hroute']
    change (app.authenticatorFlow tx >>= fun _ => pure Flow.authenticator) _ = _
    rw [App.authenticatorFlow, bind_assoc, bind_of_ok hcheck']
  have hnext : ∀ t, (next t).1.isOk = false → (next t).2.block = t.block := fun _ _ => rfl
  rw [hflow]
  constructor
  · intro hok
    obtain ⟨flow, hrun⟩ := eq_ok_of_isOk hok
    obtain ⟨_, t', hante, -⟩ := bind_eq_ok.mp hrun
    rcases afterPayment_cases p gasMeter paid hnext with
      ⟨tracks, others, done, tracked, out, hothers, htracked, hout⟩ | hfails
    · obtain ⟨ctx, hincrement, -⟩ := zoom_eq_ok.mp hout
      exact ⟨tracks, others, done, tracked, ctx, hothers, htracked, hincrement⟩
    · have hexit := (recoverOutOfGas_fails p.params.maximumUnauthenticatedGas hfails).1
      rw [anteHandle_of_paid hp hfee] at hante
      rw [congrArg Prod.fst hante] at hexit
      cases hexit
  · rintro ⟨tracks, others, done, tracked, out, hothers, htracked, hincrement⟩
    have hout : next ⟨paid.store, tracked⟩ = (.ok (), ⟨paid.store, out⟩) := zoom_eq_ok.mpr ⟨out, hincrement, rfl⟩
    have hante : ∃ t', app.decorator.anteHandle tx false next { t with ctx := ctx₃ } = (.ok (), t') := by
      rw [anteHandle_of_paid hp hfee, recoverOutOfGas, afterPayment_of_ok hothers htracked hout]
      exact ⟨_, rfl⟩
    obtain ⟨t', hante⟩ := hante
    rw [bind_of_ok hante]
    rfl

theorem settles_of_accepted {header : Header} {s : MultiStore ρ}
    (h : (app.anteHandler tx (App.txContext header s tx)).1.isOk = true) : Settles app tx header s :=
  fun _ _ _ hcharged => (anteHandler_of_charged hcharged).mp h

end settles

/-! ## The ante handlers -/

section ante

variable {app : App ρ} {a : Bytes} {tx : Tx}

theorem Current.congr {s s' : MultiStore ρ} (h : Current s a tx) (hs : sequenceOf s' a = sequenceOf s a) :
    Current s' a tx := by
  obtain ⟨signers, signatures, hread, hall⟩ := h
  exact ⟨signers, signatures, hread, fun signature hmem => (hall signature hmem).trans hs.symm⟩

theorem deductFee_fees {d : DeductFeeDecorator ρ} {simulate : Bool} {ctx ctx' : Context ρ} {u : Unit}
    (h : d.exec tx simulate ctx = (.ok u, ctx')) : ctx'.store.fees = tx :: ctx.store.fees := by
  obtain ⟨_, _, hexec, hmodify⟩ := bind_eq_ok.mp h
  obtain ⟨-, rfl⟩ := Prod.mk.inj hexec
  cases hmodify
  rfl

theorem PayerAuthenticated.current {ad : AuthenticatorDecorator ρ} {simulate : Bool} {entry : TxContext ρ}
    {p : Payer ρ} (h : PayerAuthenticated ad tx simulate entry p) (hsigned : SignedBy tx a) :
    Current entry.ctx.store a tx := by
  have hauth := authenticateMsg_eq_ok h.authenticated
  have hstart : p.start.store = entry.ctx.store :=
    congrArg (fun f => f.2.1) ((keeps_getParams ad.smartAccountKeeper).of_eq h.params)
  obtain ⟨msg, msgs, signers, hmsgs, hsigners⟩ := hsigned.first
  cases h.msgs.symm.trans hmsgs
  rw [hauth.signer] at hsigners
  cases hsigners
  rw [← hstart]
  exact hauth.current.1

section kept

variable (hkept : SequenceKept app a)
include hkept

variable {simulate : Bool} {s s' : MultiStore ρ} {t t' : TxContext ρ}

theorem FeeDeducted.sequence {p : Payer ρ} {gasMeter : GasMeter} {paid : Context ρ}
    (h : FeeDeducted app.decorator tx simulate p gasMeter paid) :
    sequenceOf paid.store a = sequenceOf p.done.store a :=
  (keeps_deductFee hkept tx simulate).of_eq h.deducted

/-- What accepting a transaction does: the fee is taken, and the sequence number, for which it is signed, is raised.
-/
structure Passed (a : Bytes) (tx : Tx) (s s' : MultiStore ρ) : Prop where
  fees : s'.fees = tx :: s.fees
  sequence : sequenceOf s' a = sequenceOf s a + UInt64.ofNat ((signersOf tx).count a)
  current : SignedBy tx a → Current s a tx

omit hkept in
theorem Passed.of_standing {ctx ctx' : Context ρ} (h : Passed a tx ctx.store s')
    (hctx : standing a ctx = standing a ctx') (hs : ctx'.store = s) : Passed a tx s s' := by
  subst hs
  obtain ⟨hfees, hseq⟩ := Prod.mk.inj hctx
  refine ⟨?_, ?_, fun hsigned => (h.current hsigned).congr hseq.symm⟩
  · rw [h.fees, hfees]
  · rw [h.sequence, hseq]

theorem Accepted.passed {entry out : TxContext ρ} (h : Accepted app.decorator tx simulate entry
      (onContext (incrementSequence app.decorator.accountKeeper tx)) out) :
    Passed a tx entry.ctx.store out.ctx.store := by
  obtain ⟨p, gasMeter, paid, tracks, others, done, tracked, hp, hdone, hfee, hothers, hsame, htracked, hfees,
    hnext⟩ := h
  obtain ⟨ctx, hincrement, rfl⟩ := zoom_eq_ok.mp hnext
  have hseq : sequenceOf tracked.store a = sequenceOf entry.ctx.store a := by
    have htrack : standing a tracked = standing a others :=
      (keeps_trackCalls (hkept.imp fun _ => keeps_exec) hp hothers).of_eq htracked
    obtain ⟨-, htrack⟩ := Prod.mk.inj htrack
    rw [htrack, hsame, hfee.sequence hkept, hdone]
  obtain ⟨hfees', hseq'⟩ := Prod.mk.inj (incrementSequence_eq_ok hincrement)
  refine ⟨hfees'.trans hfees, ?_, hp.current⟩
  rw [hseq', hseq]

theorem authenticatorFlow_eq_ok {u : Unit}
    (h : app.authenticatorFlow tx t = (.ok u, t')) : Passed a tx t.ctx.store t'.ctx.store := by
  obtain ⟨_, t₁, hcheck, hante⟩ := bind_eq_ok.mp h
  obtain ⟨ctx, hexec, rfl⟩ := zoom_eq_ok.mp hcheck
  have hstanding : standing a ctx = standing a t.ctx := (keeps_exec (hkept.checkSignatures tx)).of_eq hexec
  rcases anteHandle_cases app.decorator tx false { t with ctx := ctx }
    (onContext (incrementSequence app.decorator.accountKeeper tx)) (fun _ _ => rfl) with ⟨-, hok⟩ | ⟨hno, -⟩
  · rw [hante] at hok
    exact (Accepted.passed hkept hok).of_standing hstanding rfl
  · exact absurd (congrArg Prod.fst hante) hno

theorem classicFlow_eq_ok {u : Unit} (h : app.classicFlow tx t = (.ok u, t')) :
    Passed a tx t.ctx.store t'.ctx.store := by
  unfold App.classicFlow at h
  obtain ⟨ctx, hflow, rfl⟩ := zoom_eq_ok.mp h
  obtain ⟨_, ctx₁, hfee, h₁⟩ := bind_eq_ok.mp hflow
  obtain ⟨_, ctx₂, hkeys, h₂⟩ := bind_eq_ok.mp h₁
  obtain ⟨_, ctx₃, hverify, h₃⟩ := bind_eq_ok.mp h₂
  obtain ⟨_, ctx₄, hsigs, h₄⟩ := bind_eq_ok.mp h₃
  obtain ⟨_, ctx₅, hincrement, hrelay⟩ := bind_eq_ok.mp h₄
  have hseq₁ : sequenceOf ctx₁.store a = sequenceOf t.ctx.store a := (keeps_deductFee hkept tx false).of_eq hfee
  have hkeys' : standing a ctx₂ = standing a ctx₁ := (keeps_exec (hkept.setPubKeys tx)).of_eq hkeys
  have hverify' : standing a ctx₃ = standing a ctx₂ :=
    (keeps_standing_of_frame (keeps_verifySequences tx)).of_eq hverify
  have hsigs' : standing a ctx₄ = standing a ctx₃ := (keeps_exec (hkept.verifySignatures tx)).of_eq hsigs
  have hrelay' : standing a ctx = standing a ctx₅ := (keeps_exec (hkept.redundantRelay tx)).of_eq hrelay
  obtain ⟨hfees₄, hseq₄⟩ := Prod.mk.inj (hsigs'.trans (hverify'.trans hkeys'))
  obtain ⟨hfees, hseq⟩ := Prod.mk.inj (hrelay'.trans (incrementSequence_eq_ok hincrement))
  refine ⟨?_, ?_, fun _ => (verifySequences_eq_ok hverify).congr ?_⟩
  · rw [hfees, hfees₄, deductFee_fees hfee]
  · rw [hseq, hseq₄, hseq₁]
  · rw [(Prod.mk.inj hkeys').2, hseq₁]

theorem standing_of_route {ctx ctx' : Context ρ} {route : Option (List UInt64)} {u : Unit}
    (hsetUp : (app.setUp tx).exec t.ctx = (.ok u, ctx))
    (hroute : app.keeper.isCircuitBreakActive tx ctx = (.ok route, ctx')) :
    standing a ctx' = standing a t.ctx := by
  have hfirst : standing a ctx = standing a t.ctx := (keeps_exec (hkept.setUp tx)).of_eq hsetUp
  have hsecond : standing a ctx' = standing a ctx :=
    (keeps_standing_of_frame (keeps_isCircuitBreakActive app.keeper tx)).of_eq hroute
  exact hsecond.trans hfirst

theorem anteHandler_eq_ok {flow : Flow} (h : app.anteHandler tx t = (.ok flow, t')) :
    Passed a tx t.ctx.store t'.ctx.store := by
  obtain ⟨_, t₁, hsetUp, h₁⟩ := bind_eq_ok.mp h
  obtain ⟨ctx₁, hexec, rfl⟩ := zoom_eq_ok.mp hsetUp
  obtain ⟨route, t₂, hbreak, h₂⟩ := bind_eq_ok.mp h₁
  obtain ⟨ctx₂, hroute, rfl⟩ := zoom_eq_ok.mp hbreak
  have hstanding := standing_of_route hkept hexec hroute
  cases route with
  | none =>
    obtain ⟨_, t₃, hflow, hpure⟩ := bind_eq_ok.mp h₂
    obtain ⟨-, rfl⟩ := pure_eq_ok.mp hpure
    exact (classicFlow_eq_ok hkept hflow).of_standing hstanding rfl
  | some selected =>
    obtain ⟨_, t₃, hflow, hpure⟩ := bind_eq_ok.mp h₂
    obtain ⟨-, rfl⟩ := pure_eq_ok.mp hpure
    exact (authenticatorFlow_eq_ok hkept hflow).of_standing hstanding rfl

/-- What the ante handlers can leave in the block: nothing, or the fee. -/
structure Flushed (app : App ρ) (a : Bytes) (tx : Tx) (t : TxContext ρ) (block : MultiStore ρ) : Prop where
  fees : block.fees = t.block.fees ∨
    block.fees = tx :: t.block.fees ∧ ∃ p gasMeter paid, Charged app tx t p gasMeter paid
  sequence : sequenceOf block a = sequenceOf t.block a

theorem anteHandle_flushed {entry : TxContext ρ} (hentered : Entered app tx t entry)
    (hstanding : standing a entry.ctx = (t.block.fees, sequenceOf t.block a)) :
    Flushed app a tx t (app.decorator.anteHandle tx false
      (onContext (incrementSequence app.decorator.accountKeeper tx)) entry).2.block := by
  obtain ⟨hfees, hseq⟩ := Prod.mk.inj hstanding
  have hpaid : ∀ {p gasMeter} {paid : Context ρ}, PayerAuthenticated app.decorator tx false entry p →
      p.done.store = entry.ctx.store → FeeDeducted app.decorator tx false p gasMeter paid →
      Flushed app a tx t paid.store := by
    intro p gasMeter paid hp hdone hfee
    refine ⟨.inr ⟨?_, p, gasMeter, paid, entry, hentered, hp, hfee⟩, ?_⟩
    · rw [hfee.fees, hdone, hfees]
    · rw [hfee.sequence hkept, hdone, hseq]
  rcases anteHandle_cases app.decorator tx false entry
    (onContext (incrementSequence app.decorator.accountKeeper tx)) (fun _ _ => rfl) with
    ⟨-, haccepted⟩ | ⟨-, ⟨hrejected, -⟩ | ⟨p, gasMeter, paid, hp, hdone, hfee, hrejected⟩⟩
  · obtain ⟨p, gasMeter, paid, _, _, _, tracked, hp, hdone, hfee, -, -, -, -, hnext⟩ := haccepted
    obtain ⟨ctx, -, hout⟩ := zoom_eq_ok.mp hnext
    rw [hout]
    exact hpaid hp hdone hfee
  · obtain ⟨_, _, _, _, -, -, -, rfl⟩ := hentered
    rw [hrejected]
    exact ⟨.inl rfl, rfl⟩
  · rw [hrejected]
    exact hpaid hp hdone hfee

theorem anteHandler_flushed (tx : Tx) (t : TxContext ρ) (hblock : t.block = t.ctx.store) :
    Flushed app a tx t (app.anteHandler tx t).2.block := by
  have hsame : Flushed app a tx t t.block := ⟨.inl rfl, rfl⟩
  refine state_bind (Q := fun out : TxContext ρ => Flushed app a tx t out.block) hsame fun _ t₁ hsetUp => ?_
  obtain ⟨ctx₁, hexec, rfl⟩ := zoom_eq_ok.mp hsetUp
  refine state_bind (Q := fun out : TxContext ρ => Flushed app a tx t out.block) hsame fun route t₂ hbreak => ?_
  obtain ⟨ctx₂, hroute, rfl⟩ := zoom_eq_ok.mp hbreak
  have hstanding := standing_of_route hkept hexec hroute
  cases route with
  | none =>
    refine state_bind (Q := fun out : TxContext ρ => Flushed app a tx t out.block) hsame fun _ t₃ hflow => ?_
    unfold App.classicFlow at hflow
    obtain ⟨_, -, rfl⟩ := zoom_eq_ok.mp hflow
    exact hsame
  | some selected =>
    have hflow : Flushed app a tx t (app.authenticatorFlow tx { t with ctx := ctx₂ }).2.block := by
      refine state_bind (Q := fun out : TxContext ρ => Flushed app a tx t out.block) hsame fun _ t₃ hcheck => ?_
      obtain ⟨ctx₃, hexec₃, rfl⟩ := zoom_eq_ok.mp hcheck
      have hcheck' : standing a ctx₃ = standing a ctx₂ :=
        (keeps_exec (hkept.checkSignatures tx)).of_eq hexec₃
      refine anteHandle_flushed hkept ⟨ctx₁, selected, ctx₂, ctx₃, hexec, hroute, hexec₃, rfl⟩ ?_
      rw [hblock]
      exact hcheck'.trans hstanding
    refine state_bind (Q := fun out : TxContext ρ => Flushed app a tx t out.block) hflow fun _ t₃ hok => ?_
    rw [hok] at hflow
    exact hflow

theorem Charged.current {p : Payer ρ} {gasMeter : GasMeter} {paid : Context ρ} (h : Charged app tx t p gasMeter paid)
    (hsigned : SignedBy tx a) : Current t.ctx.store a tx := by
  obtain ⟨entry, ⟨ctx₁, selected, ctx₂, ctx₃, hsetUp, hroute, hcheck, rfl⟩, hp, -⟩ := h
  have hcheck' : standing a ctx₃ = standing a ctx₂ := (keeps_exec (hkept.checkSignatures tx)).of_eq hcheck
  have hstanding := hcheck'.trans (standing_of_route hkept hsetUp hroute)
  exact (hp.current hsigned).congr (Prod.mk.inj hstanding).2.symm

/-! ## Deliveries -/

/-- A transaction is rejected, and its fee is taken only if it did not settle, or it is accepted. -/
theorem runTx_cases (header : Header) (s : MultiStore ρ) (tx : Tx) :
    (sequenceOf (app.runTx header s tx).store a = sequenceOf s a ∧ ((app.runTx header s tx).store.fees = s.fees ∨
      (app.runTx header s tx).store.fees = tx :: s.fees ∧ ¬ Settles app tx header s ∧
        (SignedBy tx a → Current s a tx))) ∨
      Passed a tx s (app.runTx header s tx).store := by
  cases hok : (app.anteHandler tx (App.txContext header s tx)).1.isOk with
  | false =>
    left
    rw [runTx_of_rejected hok]
    obtain ⟨hfees, hseq⟩ := anteHandler_flushed hkept tx (App.txContext header s tx) rfl
    refine ⟨hseq, hfees.imp_right ?_⟩
    rintro ⟨hfees, p, gasMeter, paid, hcharged⟩
    refine ⟨hfees, fun hsettles => ?_, hcharged.current hkept⟩
    simp [(anteHandler_of_charged hcharged).mpr (hsettles p gasMeter paid hcharged)] at hok
  | true =>
    right
    obtain ⟨flow, hante⟩ := eq_ok_of_isOk hok
    set t := (app.anteHandler tx (App.txContext header s tx)).2
    have hpassed : Passed a tx s t.ctx.store := anteHandler_eq_ok hkept hante
    rcases hmsgs : app.runMsgs tx t.ctx with ⟨x, ctx⟩
    have hmsgs' : standing a ctx = standing a t.ctx := (keeps_runMsgs hkept tx).of_eq hmsgs
    cases x with
    | ok u =>
      rw [runTx_of_msgsOk hante hmsgs]
      split
      · have hpost := keeps_postHandle hkept tx ⟨ctx, []⟩
        obtain ⟨hfees, hseq⟩ := Prod.mk.inj (Eq.trans hpost hmsgs')
        exact ⟨hfees.trans hpassed.fees, hseq.trans hpassed.sequence, hpassed.current⟩
      · exact hpassed
    | error e =>
      rw [runTx_of_msgsError hante hmsgs]
      exact hpassed
    | outOfGas | panicked =>
      simp only [App.runTx, hante, App.runMsgsAndPost, hmsgs]
      exact hpassed

/-- The signature of the account in the transaction is for a number that has passed. -/
def Used (s : MultiStore ρ) (a : Bytes) (tx : Tx) : Prop :=
  ∃ signers signatures signature, getSignerAndSignatures tx = .ok (signers, signatures) ∧
    (a, signature) ∈ signers.zip signatures ∧ signature.sequence < sequenceOf s a

omit hkept in
theorem Used.not_current (h : Used s a tx) : ¬ Current s a tx := by
  obtain ⟨signers, signatures, signature, hread, hmem, hlt⟩ := h
  rintro ⟨signers', signatures', hread', hall⟩
  cases hread.symm.trans hread'
  rw [hall signature hmem] at hlt
  exact absurd hlt (UInt64.lt_irrefl _)

omit hkept in
theorem getSignerAndSignatures_eq_ok {signers : List Bytes} {signatures : List SignatureV2}
    (h : getSignerAndSignatures tx = .ok (signers, signatures)) :
    signersOf tx = signers ∧ signers.length = signatures.length := by
  unfold getSignerAndSignatures at h
  split at h
  · cases h
  · rename_i sigTx hsig
    split at h
    · cases h
    · cases h
    · rename_i hsignatures hsigners
      split at h
      · cases h
      · rename_i hlength
        cases h
        simp only [not_not] at hlength
        exact ⟨by simp [signersOf, hsig, hsigners], hlength.symm⟩

omit hkept in
theorem exists_mem_zip {as : List Bytes} {bs : List SignatureV2} (ha : a ∈ as) (h : as.length = bs.length) :
    ∃ b, (a, b) ∈ as.zip bs := by
  obtain ⟨i, hi, rfl⟩ := mem_iff_getElem.mp ha
  exact ⟨bs[i], mem_iff_getElem.mpr ⟨i, by simp [← h, hi], by simp⟩⟩

omit hkept in
/-- The numbers that have passed stay passed, as long as they do not wrap around. -/
theorem Passed.lt (h : Passed a tx s s') (hroom : (sequenceOf s a).toNat + (signersOf tx).length < 2 ^ 64) :
    (sequenceOf s' a).toNat = (sequenceOf s a).toNat + (signersOf tx).count a := by
  have hcount : (signersOf tx).count a ≤ (signersOf tx).length := count_le_length
  rw [h.sequence, UInt64.toNat_add, UInt64.toNat_ofNat']
  omega

omit hkept in
theorem Passed.used (h : Passed a tx s s') (hsigned : SignedBy tx a)
    (hroom : (sequenceOf s a).toNat + (signersOf tx).length < 2 ^ 64) : Used s' a tx := by
  obtain ⟨signers, signatures, hread, hall⟩ := h.current hsigned
  obtain ⟨hsigners, hlength⟩ := getSignerAndSignatures_eq_ok hread
  obtain ⟨signature, hmem⟩ := exists_mem_zip (hsigners ▸ hsigned.signer) hlength
  refine ⟨signers, signatures, signature, hread, hmem, ?_⟩
  have hraised := h.lt hroom
  have hpos : 0 < (signersOf tx).count a := count_pos_iff.mpr hsigned.signer
  rw [hall signature hmem, UInt64.lt_iff_toNat_lt]
  omega

omit hkept in
theorem Used.mono (h : Used s a tx) (hle : (sequenceOf s a).toNat ≤ (sequenceOf s' a).toNat) : Used s' a tx := by
  obtain ⟨signers, signatures, signature, hread, hmem, hlt⟩ := h
  refine ⟨signers, signatures, signature, hread, hmem, ?_⟩
  rw [UInt64.lt_iff_toNat_lt] at hlt ⊢
  omega

/-- The transaction has not been charged since the fees were `fees`, or once and its number is used up. -/
def ChargedOnce (a : Bytes) (tx : Tx) (n : ℕ) (s : MultiStore ρ) : Prop :=
  s.fees.count tx = n ∨ s.fees.count tx = n + 1 ∧ Used s a tx

/-- A delivery does not exhaust the sequence numbers of the account. -/
def Room (a : Bytes) (s : MultiStore ρ) (d : Delivery) : Prop :=
  (sequenceOf s a).toNat + (signersOf d.tx).length < 2 ^ 64

theorem deliver_sequence {d : Delivery} (hroom : Room a s d) :
    (sequenceOf s a).toNat ≤ (sequenceOf (app.deliver s d) a).toNat := by
  rcases runTx_cases hkept d.header s d.tx with ⟨hseq, -⟩ | hpassed
  · exact (congrArg UInt64.toNat hseq).ge
  · have hraised := hpassed.lt hroom
    unfold App.deliver
    omega

theorem deliver_of_ne {d : Delivery} (hne : d.tx ≠ tx) : (app.deliver s d).fees.count tx = s.fees.count tx := by
  unfold App.deliver
  rcases runTx_cases hkept d.header s d.tx with ⟨-, hfees | ⟨hfees, -⟩⟩ | hpassed
  · rw [hfees]
  · rw [hfees, count_cons_of_ne hne]
  · rw [hpassed.fees, count_cons_of_ne hne]

/-- A delivery takes the fee once, and not if the number of the transaction is used up. -/
theorem deliver_count_le (hsigned : SignedBy tx a) {n : ℕ} {header : Header} (h : ChargedOnce a tx n s) :
    (app.deliver s ⟨header, tx⟩).fees.count tx ≤ n + 1 := by
  unfold App.deliver
  rcases runTx_cases hkept header s tx with ⟨-, hfees | ⟨hfees, -, hcurrent⟩⟩ | hpassed
  · rw [hfees]
    rcases h with h | ⟨h, -⟩ <;> omega
  · rcases h with h | ⟨-, hused⟩
    · rw [hfees, count_cons_self, h]
    · exact absurd (hcurrent hsigned) hused.not_current
  · rcases h with h | ⟨-, hused⟩
    · rw [hpassed.fees, count_cons_self, h]
    · exact absurd (hpassed.current hsigned) hused.not_current

theorem deliver_chargedOnce (hsigned : SignedBy tx a) {n : ℕ} {d : Delivery} (h : ChargedOnce a tx n s)
    (hroom : Room a s d) (hsettles : d.tx = tx → Settles app tx d.header s) :
    ChargedOnce a tx n (app.deliver s d) := by
  have hle : (sequenceOf s a).toNat ≤ (sequenceOf (app.deliver s d) a).toNat := deliver_sequence hkept hroom
  obtain ⟨header, tx'⟩ := d
  by_cases htx : tx' = tx
  · subst htx
    rcases runTx_cases hkept header s tx' with ⟨-, hfees | ⟨-, hno, -⟩⟩ | hpassed
    · rcases h with h | ⟨h, hused⟩
      · exact .inl (hfees ▸ h)
      · exact .inr ⟨hfees ▸ h, hused.mono hle⟩
    · exact absurd (hsettles rfl) hno
    · have hpassed : Passed a tx' s (app.deliver s ⟨header, tx'⟩) := hpassed
      rcases h with h | ⟨-, hused⟩
      · exact Or.inr ⟨by rw [hpassed.fees, count_cons_self, h], hpassed.used hsigned hroom⟩
      · exact absurd (hpassed.current hsigned) hused.not_current
  · have hcount : (app.deliver s ⟨header, tx'⟩).fees.count tx = s.fees.count tx := deliver_of_ne hkept htx
    rcases h with h | ⟨h, hused⟩
    · exact .inl (hcount.trans h)
    · exact .inr ⟨hcount.trans h, hused.mono hle⟩

/-- What a run asks: no delivery exhausts the account's sequence numbers, and the transaction settles wherever it is
delivered again. -/
def Resettles (app : App ρ) (tx : Tx) (a : Bytes) : MultiStore ρ → List Delivery → Prop
  | _, [] => True
  | s, d :: ds => Room a s d ∧ (d.tx = tx → (∃ d' ∈ ds, d'.tx = tx) → Settles app tx d.header s) ∧
      Resettles app tx a (app.deliver s d) ds

/-- The transaction is charged once as long as it settles, and its last delivery adds no more than one fee. -/
theorem run_count_le (hsigned : SignedBy tx a) {n : ℕ} : ∀ {ds : List Delivery} {s : MultiStore ρ},
    ChargedOnce a tx n s → Resettles app tx a s ds → (run app.deliver s ds).fees.count tx ≤ n + 1
  | [], s, h, _ => by
    rw [run_nil]
    rcases h with h | ⟨h, -⟩ <;> omega
  | d :: ds, s, h, ⟨hroom, hsettles, hds⟩ => by
    rw [run_cons]
    by_cases hagain : d.tx = tx → ∃ d' ∈ ds, d'.tx = tx
    · exact run_count_le hsigned (deliver_chargedOnce hkept hsigned h hroom fun htx => hsettles htx (hagain htx)) hds
    · -- the last delivery
      obtain ⟨rfl, hlast⟩ := Classical.not_imp.mp hagain
      have hrest : (run app.deliver (app.deliver s d) ds).fees.count d.tx = (app.deliver s d).fees.count d.tx :=
        run_invariant (I := fun t : MultiStore ρ => t.fees.count d.tx = (app.deliver s d).fees.count d.tx)
          (fun t d' ht hd' => (deliver_of_ne hkept hd').trans ht) _ ds
          (Along.of_mem (fun d' hd' htx => hlast ⟨d', hd', htx⟩) _) rfl
      rw [hrest]
      exact deliver_count_le hkept hsigned h

end kept

end ante

theorem Sample.app_sequenceKept (a : Bytes) : SequenceKept app a :=
  otherModules fun _ hcode ctx => congrArg (sequenceOf · a) (hcode ctx)

end SmartAccount
