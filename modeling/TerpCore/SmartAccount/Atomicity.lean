/-
  The ante handler of the smart accounts is atomic up to the fee: a transaction that it rejects has paid its
  fee or done nothing, and one that it accepts has paid its fee once and been tracked in the order of its
  messages.
-/
import TerpCore.SmartAccount.Ante

namespace SmartAccount

open Lib AnteState Proc

variable {ρ : Type}

/-! ## Authentication only reads -/

/-- All but the gas that is consumed. -/
def Context.frame (ctx : Context ρ) : Header × MultiStore ρ × Option UInt64 :=
  (ctx.header, ctx.store, ctx.gasMeter.limit)

section reads

theorem keeps_consumeGas (amount : UInt64) :
    Keeps (Same Context.frame) (consumeGas amount : Proc (Context ρ) Err Unit) := by
  intro ctx
  have hlimit : (GasMeter.consumeGas amount ctx.gasMeter : Exit Err Unit × GasMeter).2.limit = ctx.gasMeter.limit := by
    unfold GasMeter.consumeGas
    split <;> rfl
  exact congrArg (fun limit => (ctx.header, ctx.store, limit)) hlimit

theorem keeps_getRow (k : Keeper ρ) (key : Bytes) : Keeps (Same Context.frame) (k.get key) :=
  keeps_bind keeps_get fun _ => keeps_bind (keeps_consumeGas _) fun _ => keeps_pure _

theorem keeps_getAccount (ak : AccountKeeper) (address : Bytes) :
    Keeps (Same Context.frame) (ak.getAccount address : Proc (Context ρ) Err (Option Account)) :=
  keeps_bind keeps_get fun _ => keeps_bind (keeps_consumeGas _) fun _ => keeps_pure _

theorem keeps_getParams (k : Keeper ρ) : Keeps (Same Context.frame) k.getParams := by
  refine keeps_bind (keeps_getRow k _) fun row => ?_
  split <;> exact keeps_pure _

theorem keeps_getInitializedAuthenticatorForAccount (k : Keeper ρ) (account : Bytes) (id : UInt64) :
    Keeps (Same Context.frame) (k.getInitializedAuthenticatorForAccount account id) := by
  refine keeps_bind (keeps_bind (keeps_getRow k _) fun row => ?_) fun data => ?_
  · split
    · exact keeps_fail _
    · exact keeps_pure _
    · exact keeps_fail _
  · split
    · exact keeps_fail _
    · split
      · exact keeps_fail _
      · exact keeps_ofOutcome _
      · exact keeps_pure _
      · exact keeps_pure _

theorem keeps_getSignerData (ak : AccountKeeper) (account : Bytes) :
    Keeps (Same Context.frame) (getSignerData ak account : Proc (Context ρ) Err SignerData) := by
  refine keeps_bind (keeps_getAccount ak account) fun base => keeps_bind keeps_get fun ctx => ?_
  split
  · exact keeps_pure _
  · split
    · exact keeps_pure _
    · exact keeps_ofOutcome _

theorem keeps_generateAuthenticationRequest (ak : AccountKeeper) (getSignBytes : SignBytes)
    (args : RequestArgs) (rp : ReplayProtection) :
    Keeps (Same Context.frame)
      (generateAuthenticationRequest ak getSignBytes args rp : Proc (Context ρ) Err AuthenticationRequest) := by
  unfold generateAuthenticationRequest
  split
  · exact keeps_fail _
  · exact keeps_ofOutcome _
  · refine keeps_bind (keeps_require _ _) fun _ => ?_
    refine keeps_bind (keeps_mapError (keeps_ofOutcome _)) fun _ => ?_
    refine keeps_bind (keeps_getSignerData ak _) fun _ => ?_
    refine keeps_bind (keeps_mapError (keeps_ofOutcome _)) fun _ => ?_
    refine keeps_bind (keeps_mapError (keeps_ofOutcome _)) fun _ => ?_
    refine keeps_bind (keeps_ofOutcome _) fun _ => keeps_bind keeps_get fun _ => ?_
    split
    · exact keeps_pure _
    · exact keeps_bind (keeps_mapError (keeps_ofOutcome _)) fun _ => keeps_pure _

theorem keeps_neverWrite (code : Code ρ) : Keeps (Same Context.frame) (neverWrite code.exec) := fun _ => rfl

variable (ad : AuthenticatorDecorator ρ)

theorem keeps_authenticateMsg (f : TxFee) (tx : Tx) (simulate : Bool) (i : ℕ) (msg : Msg) :
    Keeps (Same Context.frame) (ad.authenticateMsg f tx simulate i msg) := by
  unfold AuthenticatorDecorator.authenticateMsg
  split
  · exact keeps_fail _
  · refine keeps_bind (keeps_ofOutcome _) fun _ => ?_
    refine keeps_bind (keeps_mapError (keeps_getInitializedAuthenticatorForAccount _ _ _)) fun _ => ?_
    refine keeps_bind (keeps_mapError (keeps_generateAuthenticationRequest _ _ _ _)) fun _ => ?_
    refine keeps_bind (keeps_ofOutcome _) fun _ => ?_
    refine keeps_bind (keeps_consumeGas _) fun _ => ?_
    exact keeps_bind (keeps_mapError (keeps_neverWrite _)) fun _ => keeps_pure _
  · exact keeps_fail _

theorem keeps_track (t : Track ρ) : Keeps (Same fun ctx : Context ρ => ctx.store.fees) t.run :=
  keeps_mapError fun _ => rfl

end reads

/-! ## Authenticated messages -/

section messages

variable {ad : AuthenticatorDecorator ρ} {f : TxFee} {tx : Tx} {simulate : Bool} {i : ℕ} {msg : Msg}
  {ctx ctx' : Context ρ} {t : Track ρ}

/-- What happened to a message that is authenticated. -/
structure MsgAuthenticated (ad : AuthenticatorDecorator ρ) (f : TxFee) (tx : Tx) (simulate : Bool) (i : ℕ)
    (msg : Msg) (ctx ctx' : Context ρ) (t : Track ρ) : Prop where
  signer : msg.signers = some [t.account]
  request : ∃ selectedId id request ctx₁ ctx₂, f.selectedAuthenticators[i]? = some selectedId ∧
    ad.smartAccountKeeper.getInitializedAuthenticatorForAccount t.account selectedId ctx =
      (.ok ⟨id, some t.ath⟩, ctx₁) ∧
    generateAuthenticationRequest ad.accountKeeper ad.getSignBytes
      ⟨t.account, f.feePayer, f.feeGranter, f.fee, msg, tx, i, simulate⟩ sequenceMatch ctx₁ =
      (.ok request, ctx₂) ∧
    t.authenticationRequest = { request with authenticatorId := decimal id }
  authenticated : ∃ ctx₃ : Context ρ, (t.ath.authenticate t.authenticationRequest ctx₃).exit = .ok ()

theorem authenticateMsg_eq_ok (h : ad.authenticateMsg f tx simulate i msg ctx = (.ok t, ctx')) :
    MsgAuthenticated ad f tx simulate i msg ctx ctx' t := by
  unfold AuthenticatorDecorator.authenticateMsg at h
  rcases hsigners : msg.signers with _ | ⟨_ | ⟨account, _ | ⟨other, signers⟩⟩⟩ <;> rw [hsigners] at h
  · cases h
  · cases h
  · obtain ⟨selectedId, ctx₀, hid, h⟩ := bind_eq_ok.mp h
    obtain ⟨selected, ctx₁, hselected, h⟩ := bind_eq_ok.mp h
    obtain ⟨request, ctx₂, hrequest, h⟩ := bind_eq_ok.mp h
    obtain ⟨ath, _, hath, h⟩ := bind_eq_ok.mp h
    obtain ⟨_, ctx₃, -, h⟩ := bind_eq_ok.mp h
    obtain ⟨_, ctx₄, hauth, h⟩ := bind_eq_ok.mp h
    obtain ⟨rfl, -⟩ := pure_eq_ok.mp h
    obtain ⟨_, hexec, -⟩ := zoom_eq_ok.mp (mapError_eq_ok.mp hauth)
    simp only [ofOutcome_eq_ok, Outcome.ofOption_eq_ok] at hid hath
    obtain ⟨hid, rfl⟩ := hid
    obtain ⟨id, authenticator⟩ := selected
    obtain ⟨rfl, rfl⟩ := hath
    exact ⟨hsigners, ⟨selectedId, id, request, ctx₁, _, hid, mapError_eq_ok.mp hselected,
      mapError_eq_ok.mp hrequest, rfl⟩, ctx₃, (Prod.mk.inj hexec).1⟩
  · cases h

end messages

/-! ## The payment -/

theorem readTx_eq_ok {tx : Tx} {f : TxFee} (h : readTx tx = .ok f) :
    ∃ msg rest, tx.msgs = msg :: rest ∧ ∃ signers, msg.signers = some (f.feePayer :: signers) := by
  unfold readTx at h
  split at h
  · cases h
  · rename_i msg rest hmsgs
    split at h
    · cases h
    · cases h
    · cases h
    · rename_i feePayer signers hfee hsigners
      obtain ⟨selected, -, hok⟩ := Outcome.bind_eq_ok.mp h
      cases hok
      exact ⟨msg, rest, hmsgs, signers, hsigners⟩

/-- What the handler has found out when the first message is authenticated. -/
structure Payer (ρ : Type) where
  params : Params
  fee : TxFee
  msg : Msg
  rest : List Msg
  track : Track ρ
  /-- after the parameters are read -/
  start : Context ρ
  /-- after the message is authenticated -/
  done : Context ρ

/-- The first message is authenticated, from the context of the entry and under the payer's gas limit. -/
structure PayerAuthenticated (ad : AuthenticatorDecorator ρ) (tx : Tx) (simulate : Bool)
    (entry : TxContext ρ) (p : Payer ρ) : Prop where
  validated : validateAuthenticatorFeePayer tx = .ok ()
  params : ad.smartAccountKeeper.getParams entry.ctx = (.ok p.params, p.start)
  read : readTx tx = .ok p.fee
  msgs : tx.msgs = p.msg :: p.rest
  authenticated : ad.authenticateMsg p.fee tx simulate 0 p.msg
    ⟨p.start.header, p.start.store, .new p.params.maximumUnauthenticatedGas⟩ = (.ok p.track, p.done)

/-- The gas of the authentication is charged to the transaction, and the fee is deducted. -/
structure FeeDeducted (ad : AuthenticatorDecorator ρ) (tx : Tx) (simulate : Bool) (p : Payer ρ)
    (gasMeter : GasMeter) (paid : Context ρ) : Prop where
  charged : GasMeter.consumeGas p.done.gasMeter.consumed p.start.gasMeter =
    ((.ok (), gasMeter) : Exit Err Unit × GasMeter)
  deducted : ad.deductFeeDecorator.exec tx simulate p.done = (.ok (), paid)

/-- The handler once the fee is paid: the other messages, all the calls of `Track`, and the next handler. -/
def AuthenticatorDecorator.afterPayment (ad : AuthenticatorDecorator ρ) (tx : Tx) (simulate : Bool)
    (p : Payer ρ) (next : Proc (TxContext ρ) Err Unit) : Proc (AnteState ρ) Err Unit := do
  let tracks ← onCtx (.forEach (ad.authenticateMsg p.fee tx simulate) 1 p.rest)
  let _ ← onCtx (.forEach (fun _ (t : Track ρ) => t.run) 0 (p.track :: tracks))
  onTx next

def paidState (gasMeter : GasMeter) (paid : Context ρ) : AnteState ρ :=
  ⟨paid.store, paid.header, paid.store, gasMeter, paid.gasMeter, true⟩

section lens

variable (s : AnteState ρ)

theorem ctx_withCtx (c : Context ρ) : (s.withCtx c).ctx = c := by
  unfold withCtx AnteState.ctx
  split <;> simp_all

theorem withCtx_withCtx (c d : Context ρ) : (s.withCtx c).withCtx d = s.withCtx d := by
  unfold withCtx
  split <;> simp_all

theorem withCtx_ctx : s.withCtx s.ctx = s := by
  obtain ⟨block, header, store, original, payer, feesPaid⟩ := s
  cases feesPaid <;> rfl

@[simp] theorem withCtx_block (c : Context ρ) : (s.withCtx c).block = s.block := by
  unfold withCtx
  split <;> rfl

@[simp] theorem withCtx_feesPaid (c : Context ρ) : (s.withCtx c).feesPaid = s.feesPaid := by
  unfold withCtx
  split <;> rfl

end lens

section steps

variable {ad : AuthenticatorDecorator ρ} {f : TxFee} {tx : Tx} {simulate : Bool} {msg : Msg} {s : AnteState ρ}

/-- Once the fee is paid a turn of the loop only authenticates. -/
theorem processMsg_of_feesPaid (i : ℕ) (msg : Msg) (hs : s.feesPaid = true) :
    ad.processMsg f tx simulate i msg s = onCtx (ad.authenticateMsg f tx simulate i msg) s := by
  rw [← bind_pure (onCtx (ad.authenticateMsg f tx simulate i msg))]
  refine bind_congr_apply fun t s' h => ?_
  obtain ⟨c, -, rfl⟩ := zoom_eq_ok.mp h
  rw [bind_of_ok (show get (s.withCtx c) = (.ok (s.withCtx c), s.withCtx c) from rfl)]
  simp [hs]

theorem forEach_processMsg_of_feesPaid (msgs : List Msg) (i : ℕ) (hs : s.feesPaid = true) :
    forEach (ad.processMsg f tx simulate) i msgs s =
      onCtx (.forEach (ad.authenticateMsg f tx simulate) i msgs) s := by
  rw [onCtx, zoom_forEach ctx_withCtx withCtx_withCtx withCtx_ctx]
  refine forEach_congr
    (fun i msg s hs => processMsg_of_feesPaid i msg hs) (fun i msg s t s' hs h => ?_) msgs i s hs
  obtain ⟨c, -, rfl⟩ := zoom_eq_ok.mp h
  simpa using hs

theorem processMsg_of_paid {t : Track ρ} {done paid : Context ρ} {gasMeter : GasMeter}
    (hs : s.feesPaid = false) (hauth : ad.authenticateMsg f tx simulate 0 msg s.ctx = (.ok t, done))
    (hpayer : t.account = f.feePayer)
    (hcharged : GasMeter.consumeGas done.gasMeter.consumed s.originalGasMeter =
      ((.ok (), gasMeter) : Exit Err Unit × GasMeter))
    (hdeducted : ad.deductFeeDecorator.exec tx simulate done = (.ok (), paid)) :
    ad.processMsg f tx simulate 0 msg s = (.ok t, paidState gasMeter paid) := by
  obtain ⟨block, header, store, original, payer, feesPaid⟩ := s
  obtain rfl : feesPaid = false := hs
  have hauth' : onCtx (ad.authenticateMsg f tx simulate 0 msg) ⟨block, header, store, original, payer, false⟩ =
      (.ok t, ⟨block, done.header, done.store, original, done.gasMeter, false⟩) :=
    zoom_eq_ok.mpr ⟨done, hauth, rfl⟩
  have hpay : ad.payFee tx simulate ⟨block, done.header, done.store, original, done.gasMeter, false⟩ =
      (.ok (), paidState gasMeter paid) := by
    refine bind_eq_ok.mpr ⟨_, _, rfl, ?_⟩
    refine bind_eq_ok.mpr ⟨(), _, zoom_eq_ok.mpr ⟨gasMeter, hcharged, rfl⟩, ?_⟩
    refine bind_eq_ok.mpr ⟨(), _, zoom_eq_ok.mpr ⟨paid, hdeducted, rfl⟩, ?_⟩
    rfl
  refine bind_eq_ok.mpr ⟨t, _, hauth', bind_eq_ok.mpr ⟨_, _, rfl, ?_⟩⟩
  rw [if_pos (by simp [hpayer])]
  exact bind_eq_ok.mpr ⟨(), _, hpay, rfl⟩

end steps

section handler

variable {ad : AuthenticatorDecorator ρ} {tx : Tx} {simulate : Bool} {entry : TxContext ρ} {p : Payer ρ}
  {gasMeter : GasMeter} {paid : Context ρ} {next : Proc (TxContext ρ) Err Unit}

section

variable (h : PayerAuthenticated ad tx simulate entry p)

include h

theorem PayerAuthenticated.account : p.track.account = p.fee.feePayer := by
  obtain ⟨msg, rest, hmsgs, signers, hsigners⟩ := readTx_eq_ok h.read
  cases h.msgs.symm.trans hmsgs
  rw [(authenticateMsg_eq_ok h.authenticated).signer] at hsigners
  exact (List.cons.inj (Option.some.inj hsigners)).1

theorem PayerAuthenticated.frame :
    p.done.frame = (entry.ctx.header, entry.ctx.store, some p.params.maximumUnauthenticatedGas) := by
  have hstart : p.start.frame = entry.ctx.frame := (keeps_getParams ad.smartAccountKeeper).of_eq h.params
  have hdone : p.done.frame = _ := (keeps_authenticateMsg ad p.fee tx simulate 0 p.msg).of_eq h.authenticated
  simp only [Context.frame, Prod.mk.injEq] at hstart
  rw [hdone, hstart.1, hstart.2.1]
  rfl

theorem anteHandle_of_paid (hfee : FeeDeducted ad tx simulate p gasMeter paid) : ad.anteHandle tx simulate next entry =
      ((recoverOutOfGas p.params.maximumUnauthenticatedGas (ad.afterPayment tx simulate p next)
          (paidState gasMeter paid)).1,
        (recoverOutOfGas p.params.maximumUnauthenticatedGas (ad.afterPayment tx simulate p next)
          (paidState gasMeter paid)).2.leave) := by
  have hloop : forEach (ad.processMsg p.fee tx simulate) 0 tx.msgs
      (enter p.params.maximumUnauthenticatedGas ⟨entry.block, p.start⟩) =
        (onCtx (.forEach (ad.authenticateMsg p.fee tx simulate) 1 p.rest) >>= fun tracks =>
          pure (p.track :: tracks) : Proc (AnteState ρ) Err (List (Track ρ))) (paidState gasMeter paid) := by
    rw [h.msgs, forEach, bind_of_ok
      (processMsg_of_paid rfl h.authenticated h.account hfee.charged hfee.deducted)]
    exact bind_congr_left (forEach_processMsg_of_feesPaid p.rest 1 rfl) _
  have hprocess : ad.processMsgs tx simulate next
      (enter p.params.maximumUnauthenticatedGas ⟨entry.block, p.start⟩) =
        ad.afterPayment tx simulate p next (paidState gasMeter paid) := by
    rw [AuthenticatorDecorator.processMsgs, h.read, ofOutcome_ok, pure_bind,
      bind_congr_left hloop, bind_assoc]
    rfl
  have hparams : onContext ad.smartAccountKeeper.getParams entry = (.ok p.params, ⟨entry.block, p.start⟩) :=
    zoom_eq_ok.mpr ⟨p.start, h.params, rfl⟩
  rw [AuthenticatorDecorator.anteHandle, h.validated, ofOutcome_ok, pure_bind, bind_of_ok hparams]
  simp only [zoom, recoverOutOfGas, hprocess]

end

theorem recoverOutOfGas_fails {α : Type} {E : AnteState ρ → Prop} (limit : UInt64)
    {q : Proc (AnteState ρ) Err α} {s : AnteState ρ} (h : Proc.Fails E (q s)) :
    Proc.Fails E (recoverOutOfGas limit q s) := by
  rcases hq : q s with ⟨x, t⟩
  rw [hq] at h
  cases x with
  | ok a => cases h.1
  | error e => simpa [recoverOutOfGas, hq] using h
  | outOfGas => exact ⟨by simp [recoverOutOfGas, hq, Exit.isOk], by simpa [recoverOutOfGas, hq] using h.2⟩
  | panicked => simpa [recoverOutOfGas, hq] using h

theorem anteHandle_of_not_paid (next : Proc (TxContext ρ) Err Unit)
    (h : ¬ ∃ p gasMeter paid, PayerAuthenticated ad tx simulate entry p ∧
      FeeDeducted ad tx simulate p gasMeter paid) :
    Proc.Fails (fun t => t.block = entry.block) (ad.anteHandle tx simulate next entry) := by
  refine bind_fails (by simp) fun _ t h₁ => ?_
  obtain ⟨hval, rfl⟩ := ofOutcome_eq_ok.mp h₁
  refine bind_fails rfl fun params t h₂ => ?_
  obtain ⟨start, hparams, rfl⟩ := zoom_eq_ok.mp h₂
  refine recoverOutOfGas_fails (E := fun s => s.block = entry.block) _ ?_
  refine bind_fails (by simp [enter]) fun f s h₃ => ?_
  obtain ⟨hread, rfl⟩ := ofOutcome_eq_ok.mp h₃
  obtain ⟨msg, rest, hmsgs, -⟩ := readTx_eq_ok hread
  refine Proc.Fails.bind ?_ _
  rw [hmsgs]
  -- the turn of the first message fails
  refine Proc.Fails.bind ?_ _
  refine bind_fails (by simp [onCtx, zoom, enter]) fun t s h₄ => ?_
  obtain ⟨done, hauth, rfl⟩ := zoom_eq_ok.mp h₄
  have hpayer : PayerAuthenticated ad tx simulate entry ⟨params, f, msg, rest, t, start, done⟩ :=
    ⟨hval, hparams, hread, hmsgs, hauth⟩
  refine bind_fails rfl fun s _ hget => ?_
  cases hget
  have haccount : t.account = f.feePayer := hpayer.account
  rw [if_pos (by simp [haccount, enter])]
  refine Proc.Fails.bind ?_ _
  refine bind_fails rfl fun s _ hget => ?_
  cases hget
  refine bind_fails rfl fun _ s h₅ => ?_
  obtain ⟨gasMeter, hcharged, rfl⟩ := zoom_eq_ok.mp h₅
  refine bind_fails (by simp [onCtx, zoom, enter]) fun _ s h₆ => ?_
  obtain ⟨paid, hdeducted, rfl⟩ := zoom_eq_ok.mp h₆
  exact absurd ⟨_, gasMeter, paid, hpayer, hcharged, hdeducted⟩ h

theorem ne_ok_of_isOk {x : Exit Err Unit} (h : x.isOk = false) : x ≠ .ok () := by
  rintro rfl
  cases h

theorem onCtx_fails {α : Type} {q : Proc (Context ρ) Err α} {s : AnteState ρ} (h : (q s.ctx).1.isOk = false) :
    Proc.Fails (fun t => t.block = s.block) (onCtx q s) :=
  ⟨h, withCtx_block s _⟩

theorem onCtx_of_ok {α : Type} {q : Proc (Context ρ) Err α} {s : AnteState ρ} {a : α} {c : Context ρ}
    (h : q s.ctx = (.ok a, c)) : onCtx q s = (.ok a, s.withCtx c) :=
  zoom_eq_ok.mpr ⟨c, h, rfl⟩

theorem afterPayment_of_ok {tracks : List (Track ρ)} {done : List Unit} {others tracked : Context ρ} {out : TxContext ρ}
    (hothers : forEach (ad.authenticateMsg p.fee tx simulate) 1 p.rest ⟨paid.header, paid.store, gasMeter⟩ =
      (.ok tracks, others))
    (htracked : forEach (fun _ (t : Track ρ) => t.run) 0 (p.track :: tracks) others = (.ok done, tracked))
    (hnext : next ⟨paid.store, tracked⟩ = (.ok (), out)) :
    ad.afterPayment tx simulate p next (paidState gasMeter paid) =
      (.ok (), ⟨out.block, out.ctx.header, out.ctx.store, out.ctx.gasMeter, paid.gasMeter, true⟩) := by
  rw [AuthenticatorDecorator.afterPayment, bind_of_ok (onCtx_of_ok hothers),
    bind_of_ok (onCtx_of_ok htracked)]
  exact zoom_eq_ok.mpr ⟨_, hnext, rfl⟩

/-- What follows the payment: it all succeeds, or it fails and the block has the fee. -/
theorem afterPayment_cases (p : Payer ρ) (gasMeter : GasMeter) (paid : Context ρ)
    (hnext : ∀ t, (next t).1.isOk = false → (next t).2.block = t.block) :
    (∃ tracks others done tracked out,
      forEach (ad.authenticateMsg p.fee tx simulate) 1 p.rest ⟨paid.header, paid.store, gasMeter⟩ =
        (.ok tracks, others) ∧
      forEach (fun _ (t : Track ρ) => t.run) 0 (p.track :: tracks) others = (.ok done, tracked) ∧
      next ⟨paid.store, tracked⟩ = (.ok (), out)) ∨
    Proc.Fails (fun s => s.block = paid.store) (ad.afterPayment tx simulate p next (paidState gasMeter paid)) := by
  cases hexit : (forEach (ad.authenticateMsg p.fee tx simulate) 1 p.rest
    ⟨paid.header, paid.store, gasMeter⟩).1.isOk with
  | false => exact .inr (Proc.Fails.bind (onCtx_fails hexit) _)
  | true =>
    obtain ⟨tracks, hothers⟩ := eq_ok_of_isOk hexit
    set others := (forEach (ad.authenticateMsg p.fee tx simulate) 1 p.rest
      ⟨paid.header, paid.store, gasMeter⟩).2
    have hfirst := onCtx_of_ok (s := paidState gasMeter paid) hothers
    cases hexit' : (forEach (fun _ (t : Track ρ) => t.run) 0 (p.track :: tracks) others).1.isOk with
    | false =>
      right
      rw [AuthenticatorDecorator.afterPayment, bind_of_ok hfirst]
      exact Proc.Fails.bind (onCtx_fails hexit') _
    | true =>
      obtain ⟨done, htracked⟩ := eq_ok_of_isOk hexit'
      set tracked := (forEach (fun _ (t : Track ρ) => t.run) 0 (p.track :: tracks) others).2
      cases hexit'' : (next ⟨paid.store, tracked⟩).1.isOk with
      | false =>
        right
        rw [AuthenticatorDecorator.afterPayment, bind_of_ok hfirst, bind_of_ok (onCtx_of_ok htracked)]
        exact ⟨hexit'', hnext _ hexit''⟩
      | true =>
        obtain ⟨_, hout⟩ := eq_ok_of_isOk hexit''
        exact .inl ⟨tracks, others, done, tracked, _, hothers, htracked, hout⟩

theorem FeeDeducted.fees (h : FeeDeducted ad tx simulate p gasMeter paid) :
    paid.store.fees = tx :: p.done.store.fees := by
  obtain ⟨_, ctx, hexec, hmodify⟩ := bind_eq_ok.mp h.deducted
  obtain ⟨-, rfl⟩ := Prod.mk.inj hexec
  cases hmodify
  rfl

theorem not_paid_of_past_limit (hp : PayerAuthenticated ad tx simulate entry p)
    (hgas : p.params.maximumUnauthenticatedGas < p.done.gasMeter.consumed) :
    ¬ ∃ p gasMeter paid, PayerAuthenticated ad tx simulate entry p ∧ FeeDeducted ad tx simulate p gasMeter paid := by
  rintro ⟨p', gasMeter, paid, hp', hfee⟩
  obtain ⟨hparams, hstart⟩ := Prod.mk.inj (hp.params.symm.trans hp'.params)
  have hfeeTx := Outcome.ok.inj (hp.read.symm.trans hp'.read)
  obtain ⟨hmsg, -⟩ := List.cons.inj (hp.msgs.symm.trans hp'.msgs)
  have hsame := hp.authenticated
  rw [Exit.ok.inj hparams, hstart, hfeeTx, hmsg, hp'.authenticated] at hsame
  obtain ⟨-, hdone⟩ := Prod.mk.inj hsame
  obtain ⟨_, ctx, hexec, -⟩ := bind_eq_ok.mp hfee.deducted
  have hpast := ad.deductFeeDecorator.metered tx simulate p'.done (Prod.mk.inj hexec).1
  have hlimit : p.done.gasMeter.limit = some p.params.maximumUnauthenticatedGas :=
    congrArg (fun f => f.2.2) hp.frame
  rw [hdone, GasMeter.isPastLimit, hlimit] at hpast
  simp [hgas] at hpast

/-! ## Atomicity -/

variable (ad tx simulate entry)

/-- The transaction is accepted: the first message is authenticated, the fee deducted from the stores of the entry,
the other messages are authenticated, and `Track` is called in the order of the messages.  Authentication has changed
no store. -/
def Accepted (next : Proc (TxContext ρ) Err Unit) (out : TxContext ρ) : Prop :=
  ∃ p gasMeter paid tracks others done tracked,
    PayerAuthenticated ad tx simulate entry p ∧ p.done.store = entry.ctx.store ∧
    FeeDeducted ad tx simulate p gasMeter paid ∧
    forEach (ad.authenticateMsg p.fee tx simulate) 1 p.rest ⟨paid.header, paid.store, gasMeter⟩ =
      (.ok tracks, others) ∧ others.store = paid.store ∧
    forEach (fun _ (t : Track ρ) => t.run) 0 (p.track :: tracks) others = (.ok done, tracked) ∧
    tracked.store.fees = tx :: entry.ctx.store.fees ∧
    next ⟨paid.store, tracked⟩ = (.ok (), out)

/-- The transaction is rejected: the block is as it was, or it is the stores of the entry with the fee
deducted. -/
def Rejected (block : MultiStore ρ) : Prop :=
  (block = entry.block ∧ ¬ ∃ p gasMeter paid, PayerAuthenticated ad tx simulate entry p ∧
      FeeDeducted ad tx simulate p gasMeter paid) ∨
    ∃ p gasMeter paid, PayerAuthenticated ad tx simulate entry p ∧ p.done.store = entry.ctx.store ∧
      FeeDeducted ad tx simulate p gasMeter paid ∧ block = paid.store

/-- The handler accepts the transaction or rejects it, if a next handler that fails writes nothing to the
block. -/
theorem anteHandle_cases (next : Proc (TxContext ρ) Err Unit)
    (hnext : ∀ t, (next t).1.isOk = false → (next t).2.block = t.block) :
    ((ad.anteHandle tx simulate next entry).1 = .ok () ∧
        Accepted ad tx simulate entry next (ad.anteHandle tx simulate next entry).2) ∨
      ((ad.anteHandle tx simulate next entry).1 ≠ .ok () ∧
        Rejected ad tx simulate entry (ad.anteHandle tx simulate next entry).2.block) := by
  by_cases hpaid : ∃ p gasMeter paid, PayerAuthenticated ad tx simulate entry p ∧
      FeeDeducted ad tx simulate p gasMeter paid
  · obtain ⟨p, gasMeter, paid, hp, hfee⟩ := hpaid
    have hstore : p.done.store = entry.ctx.store := congrArg (fun f => f.2.1) hp.frame
    rw [anteHandle_of_paid hp hfee]
    rcases afterPayment_cases p gasMeter paid hnext with
      ⟨tracks, others, done, tracked, out, hothers, htracked, hout⟩ | hfails
    · left
      rw [recoverOutOfGas, afterPayment_of_ok hothers htracked hout]
      have hkept : others.store = paid.store :=
        congrArg (fun f => f.2.1) ((keeps_forEach p.rest 1 fun i msg _ =>
          keeps_authenticateMsg ad p.fee tx simulate i msg).of_eq hothers)
      have hfees : tracked.store.fees = others.store.fees :=
        (keeps_forEach (p.track :: tracks) 0 fun _ t _ => keeps_track t).of_eq htracked
      refine ⟨rfl, p, gasMeter, paid, tracks, others, done, tracked, hp, hstore, hfee, hothers, hkept,
        htracked, ?_, hout⟩
      rw [hfees, hkept, hfee.fees, hstore]
    · right
      obtain ⟨hexit, hblock⟩ := recoverOutOfGas_fails p.params.maximumUnauthenticatedGas hfails
      exact ⟨ne_ok_of_isOk hexit, .inr ⟨p, gasMeter, paid, hp, hstore, hfee, hblock⟩⟩
  · right
    obtain ⟨hexit, hblock⟩ := anteHandle_of_not_paid next hpaid
    exact ⟨ne_ok_of_isOk hexit, .inl ⟨hblock, hpaid⟩⟩

/-- Every run of the handler, if the next one succeeds: the transaction is accepted, or rejected with an error or a
panic.  If the authentication of the first message takes more gas than there is without a fee payer, it is rejected
without effect. -/
theorem anteHandle_atomic (next : Proc (TxContext ρ) Err Unit) (hnext : ∀ t, (next t).1 = .ok ()) :
    (((ad.anteHandle tx simulate next entry).1 = .ok () ∧
        Accepted ad tx simulate entry next (ad.anteHandle tx simulate next entry).2) ∨
      ((ad.anteHandle tx simulate next entry).1 ≠ .ok () ∧
        Rejected ad tx simulate entry (ad.anteHandle tx simulate next entry).2.block)) ∧
    ∀ p, PayerAuthenticated ad tx simulate entry p → p.params.maximumUnauthenticatedGas < p.done.gasMeter.consumed →
        (ad.anteHandle tx simulate next entry).1 ≠ .ok () ∧
          (ad.anteHandle tx simulate next entry).2.block = entry.block := by
  constructor
  · refine anteHandle_cases ad tx simulate entry next fun t h => ?_
    rw [hnext t] at h
    cases h
  · intro p hp hgas
    obtain ⟨hexit, hblock⟩ := anteHandle_of_not_paid next (not_paid_of_past_limit hp hgas)
    exact ⟨ne_ok_of_isOk hexit, hblock⟩

end handler

open Sample in
/-- Two messages of alice's are accepted; a message of bob's fails and has the transaction rejected. -/
theorem alice_accepted :
    let tx := txOf [(alice, 1, .other), (alice, 1, .removeAuthenticator alice 3)]
    let failing := txOf [(alice, 1, .other), (bob, 2, .other)]
    Accepted decorator tx false Sample.entry (pure ()) (decorator.anteHandle tx false (pure ()) Sample.entry).2 ∧
      Rejected decorator failing false Sample.entry
        (decorator.anteHandle failing false (pure ()) Sample.entry).2.block := by
  intro tx failing
  constructor
  · rcases (anteHandle_atomic decorator tx false Sample.entry (pure ()) fun _ => rfl).1 with h | h
    · exact h.2
    · exact absurd (by decide +kernel) h.1
  · rcases (anteHandle_atomic decorator failing false Sample.entry (pure ()) fun _ => rfl).1 with h | h
    · exact absurd h.1 (by decide +kernel)
    · exact h.2

end SmartAccount
