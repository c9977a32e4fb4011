/-
  The ante handler and the post handler each ask whether the circuit breaker is active.  They agree as long as the
  messages between them do not switch the smart accounts on or off.
-/
import TerpCore.SmartAccount.Sequence

namespace SmartAccount

open Lib Proc

variable {ρ : Type}

/-- Each message was confirmed, with success, by the authenticator that is selected for it. -/
def Confirmed (selected : List UInt64) : ℕ → List Msg → List Confirmation → Prop
  | _, [], cs => cs = []
  | i, msg :: msgs, cs => ∃ account signers id rest, msg.signers = some (account :: signers) ∧
      selected[i]? = some id ∧ cs = ⟨i, account, id, true⟩ :: rest ∧ Confirmed selected (i + 1) msgs rest

/-- A transaction of the authenticator flow takes effect only if all its messages are confirmed; one of the classic
flow is not confirmed. -/
structure FlowAgrees (tx : Tx) (r : App.TxResult ρ) : Prop where
  confirmed : r.flow = some .authenticator → r.msgsOk = true → r.committed = true →
    ∃ selected, selectedAuthenticators tx = some selected ∧ Confirmed selected 0 tx.msgs r.confirmations
  classic : r.flow = some .classic → r.confirmations = []

/-! ## The switch -/

/-- `IsSmartAccountActive` of the parameters in the stores. -/
def activeOf (s : MultiStore ρ) : Bool :=
  match s.smartAccount.get paramsKey with
  | some (.params params) => params.isSmartAccountActive
  | _ => defaultParams.isSmartAccountActive

/-- What a message sets `IsSmartAccountActive` to. -/
def switchOf (msg : Msg) : Option Bool :=
  match msg.call with
  | .setActiveState _ active => some active
  | _ => none

/-- What the messages set `IsSmartAccountActive` to, in their order. -/
def switches (tx : Tx) : List Bool := tx.msgs.filterMap switchOf

/-- `IsSmartAccountActive` after the messages, if all of them succeed. -/
def activeAfter (s : MultiStore ρ) (tx : Tx) : Bool := (switches tx).getLast?.getD (activeOf s)

/-- The authenticators of the flow that a transaction takes, `none` in the classic one. -/
def route (active : Bool) (tx : Tx) : Option (List UInt64) := if active then selectedAuthenticators tx else none

def flowOf (active : Bool) (tx : Tx) : Flow := if (route active tx).isSome then .authenticator else .classic

/-- Code that leaves `IsSmartAccountActive` alone. -/
def KeepsActive (code : Code ρ) : Prop := ∀ ctx, activeOf (code ctx).store = activeOf ctx.store

/-- The code of other modules leaves `IsSmartAccountActive` alone. -/
abbrev ActiveKept (app : App ρ) : Prop := OtherModules app KeepsActive

def ActiveIs (active : Bool) (ctx : Context ρ) : Prop := activeOf ctx.store = active

section active

variable {app : App ρ} {k : Keeper ρ} {tx : Tx} {active : Bool} {ctx ctx' : Context ρ}

theorem activeOf_of_frame (h : ctx'.frame = ctx.frame) : activeOf ctx'.store = activeOf ctx.store :=
  congrArg (fun f : Header × MultiStore ρ × Option UInt64 => activeOf f.2.1) h

theorem activeOf_congr (h : ctx'.rows.get paramsKey = ctx.rows.get paramsKey) :
    activeOf ctx'.store = activeOf ctx.store := by
  unfold activeOf
  rw [h]

theorem rowsKept_active (k : Keeper ρ) (active : Bool) : RowsKept k (Preserving (ActiveIs active)) where
  frame _ _ h hactive := (activeOf_of_frame h).trans hactive
  set key row hne ctx hactive := by
    refine (activeOf_congr ?_).trans hactive
    rcases rows_set_cases k key row ctx with hrows | hrows <;> rw [hrows]
    rw [KVStore.get_set_of_ne _ _ hne.symm]
  delete key hne ctx hactive := by
    refine (activeOf_congr ?_).trans hactive
    rcases rows_delete_cases k key ctx with hrows | hrows <;> rw [hrows]
    rw [KVStore.get_delete_of_ne _ hne.symm]

theorem ActiveKept.exec (h : ActiveKept app) (active : Bool) :
    OtherModules app fun code => Keeps (Preserving (ActiveIs active)) code.exec :=
  h.imp fun _ hcode ctx hactive => (hcode ctx).trans hactive

theorem getParams_active {params : Params} (h : k.getParams ctx = (.ok params, ctx')) :
    params.isSmartAccountActive = activeOf ctx.store := by
  obtain ⟨row, ctx₁, hget, h⟩ := bind_eq_ok.mp h
  obtain ⟨rfl, -⟩ := getRow_eq_ok hget
  unfold activeOf
  generalize ctx.rows.get paramsKey = row at h ⊢
  rcases row with _ | _ | _ | _ <;> obtain ⟨rfl, -⟩ := pure_eq_ok.mp h <;> rfl

theorem isCircuitBreakActive_eq_ok {selected : Option (List UInt64)}
    (h : k.isCircuitBreakActive tx ctx = (.ok selected, ctx')) : selected = route (activeOf ctx.store) tx := by
  obtain ⟨active, ctx₁, hget, h⟩ := bind_eq_ok.mp h
  obtain ⟨params, ctx₂, hparams, hpure⟩ := bind_eq_ok.mp hget
  obtain ⟨rfl, -⟩ := pure_eq_ok.mp hpure
  rw [← getParams_active hparams]
  cases hactive : params.isSmartAccountActive <;> rw [hactive] at h <;> exact (pure_eq_ok.mp h).1.symm

theorem setParams_active {params : Params} {u : Unit} (h : k.setParams params ctx = (.ok u, ctx')) :
    activeOf ctx'.store = params.isSmartAccountActive := by
  have hrows : ctx'.rows = ctx.rows.set paramsKey (.params params) := by
    unfold Keeper.setParams at h
    split at h
    · cases h
    · exact setRow_eq_ok h
  simp [activeOf, show ctx'.store.smartAccount = _ from hrows]

theorem handleSetActiveState_eq_ok {sender : Bytes} {u : Unit}
    (h : k.handleSetActiveState sender active ctx = (.ok u, ctx')) : activeOf ctx'.store = active := by
  obtain ⟨signer, ctx₁, -, h⟩ := bind_eq_ok.mp h
  have hset : ∃ ctx₂, k.setActiveState active ctx₂ = (.ok u, ctx') := by
    cases active with
    | true =>
      obtain ⟨_, ctx₂, -, h⟩ := bind_eq_ok.mp h
      exact ⟨ctx₂, h⟩
    | false =>
      obtain ⟨_, ctx₂, -, h⟩ := bind_eq_ok.mp h
      obtain ⟨_, ctx₃, -, h⟩ := bind_eq_ok.mp h
      exact ⟨ctx₃, h⟩
  obtain ⟨ctx₂, hset⟩ := hset
  obtain ⟨params, ctx₃, -, hset⟩ := bind_eq_ok.mp hset
  exact setParams_active hset

/-- Whether it succeeds or not, setting the state that the module is in leaves it there. -/
theorem keeps_handleSetActiveState_active (k : Keeper ρ) (sender : Bytes) (active : Bool) :
    Keeps (Preserving (ActiveIs active)) (k.handleSetActiveState sender active) := by
  have hreads := (rowsKept_active k active).reads (keeps_getParams k)
  have hset : Keeps (Preserving (ActiveIs active)) (k.setActiveState active) := by
    refine keeps_bind hreads fun params ctx hactive => ?_
    have hrow : ActiveIs active (k.set paramsKey (.params { params with isSmartAccountActive := active }) ctx).2 := by
      rcases rows_set_cases k paramsKey (.params { params with isSmartAccountActive := active }) ctx with h | h
      · exact (activeOf_congr (by rw [h])).trans hactive
      · simp [ActiveIs, activeOf, show (k.set _ _ ctx).2.store.smartAccount = _ from h]
    unfold Keeper.setParams
    split
    · exact hactive
    · exact hrow
  refine keeps_bind (keeps_ofOutcome _) fun signer => ?_
  split
  · exact keeps_bind (keeps_require _ _) fun _ => hset
  · exact keeps_bind hreads fun _ => keeps_bind (keeps_require _ _) fun _ => hset

/-! ## The messages -/

variable (hkept : ActiveKept app)
include hkept

theorem handle_active {msg : Msg} {u : Unit} (h : app.handle msg ctx = (.ok u, ctx')) :
    activeOf ctx'.store = (switchOf msg).getD (activeOf ctx.store) := by
  cases hcall : msg.call with
  | setActiveState sender active =>
    unfold App.handle at h
    rw [hcall] at h
    simpa [switchOf, hcall] using handleSetActiveState_eq_ok h
  | addAuthenticator | removeAuthenticator | other =>
    have hkeeps : Keeps (Preserving (ActiveIs (activeOf ctx.store))) (app.handle msg) :=
      keeps_handle (rowsKept_active _ _) (hkept.exec _) fun _ _ hactive => by simp [hcall] at hactive
    simp only [switchOf, hcall]
    exact hkeeps.of_eq h rfl

theorem forEach_handle_active : ∀ {msgs : List Msg} {i : ℕ} {ctx ctx' : Context ρ} {us : List Unit},
    forEach (fun _ msg => app.handle msg) i msgs ctx = (.ok us, ctx') →
      activeOf ctx'.store = (msgs.filterMap switchOf).getLast?.getD (activeOf ctx.store)
  | [], _, _, _, _, h => by
    obtain ⟨-, rfl⟩ := pure_eq_ok.mp h
    rfl
  | msg :: msgs, _, _, _, _, h => by
    obtain ⟨_, ctx₁, hfirst, h⟩ := bind_eq_ok.mp h
    obtain ⟨_, ctx₂, hrest, h⟩ := bind_eq_ok.mp h
    obtain ⟨-, rfl⟩ := pure_eq_ok.mp h
    rw [forEach_handle_active hrest, handle_active hkept hfirst]
    cases hswitch : switchOf msg <;> simp [hswitch, List.getLast?_cons]

theorem runMsgs_active {u : Unit} (h : app.runMsgs tx ctx = (.ok u, ctx')) :
    activeOf ctx'.store = (switches tx).getLast?.getD (activeOf ctx.store) := by
  obtain ⟨_, ctx₁, hloop, h⟩ := bind_eq_ok.mp h
  obtain ⟨-, rfl⟩ := pure_eq_ok.mp h
  exact forEach_handle_active hkept hloop

theorem keeps_runMsgs_active (h : ∀ b ∈ switches tx, b = active) :
    Keeps (Preserving (ActiveIs active)) (app.runMsgs tx) := by
  refine keeps_bind (keeps_forEach _ 0 fun _ msg hmsg => ?_) fun _ => keeps_pure _
  refine keeps_handle (rowsKept_active _ _) (hkept.exec _) fun sender b hcall => ?_
  obtain rfl := h b (List.mem_filterMap.mpr ⟨msg, hmsg, by simp [switchOf, hcall]⟩)
  exact keeps_handleSetActiveState_active _ sender b

/-! ## The ante handlers -/

omit hkept in
theorem keeps_incrementSequence_active (ak : AccountKeeper) (tx : Tx) :
    Keeps (Preserving (ActiveIs active)) (incrementSequence ak tx : Proc (Context ρ) Err Unit) := by
  unfold incrementSequence
  split
  · exact keeps_fail _
  · split
    · exact keeps_fail _
    · refine keeps_bind (keeps_forEach _ 0 fun _ signer _ => ?_) fun _ => keeps_pure _
      refine keeps_bind (fun ctx h => (activeOf_of_frame (keeps_getAccount ak signer ctx)).trans h) fun acc => ?_
      split
      · exact keeps_ofOutcome _
      · exact keeps_bind (fun ctx h => (activeOf_of_frame (keeps_consumeGas _ ctx)).trans h) fun _ _ h => h

theorem keeps_deductFee_active (tx : Tx) (simulate : Bool) :
    Keeps (Preserving (ActiveIs active)) (app.decorator.deductFeeDecorator.exec tx simulate) :=
  keeps_bind ((hkept.exec active).deductFee tx simulate) fun _ _ h => h

variable {t t' : TxContext ρ} {u : Unit}

theorem authenticatorFlow_active (h : app.authenticatorFlow tx t = (.ok u, t')) (hactive : ActiveIs active t.ctx) :
    ActiveIs active t'.ctx := by
  obtain ⟨_, t₁, hcheck, hante⟩ := bind_eq_ok.mp h
  obtain ⟨ctx, hexec, rfl⟩ := zoom_eq_ok.mp hcheck
  have hchecked : ActiveIs active ctx := ((hkept.exec active).checkSignatures tx).of_eq hexec hactive
  rcases anteHandle_cases app.decorator tx false { t with ctx := ctx }
    (onContext (incrementSequence app.decorator.accountKeeper tx)) (fun _ _ => rfl) with ⟨-, hok⟩ | ⟨hno, -⟩
  · rw [hante] at hok
    obtain ⟨p, gasMeter, paid, tracks, others, done, tracked, hp, hdone, hfee, hothers, hsame, htracked, -,
      hnext⟩ := hok
    obtain ⟨out, hincrement, rfl⟩ := zoom_eq_ok.mp hnext
    have hpayer : ActiveIs active p.done := (congrArg activeOf hdone).trans hchecked
    have hpaid : ActiveIs active paid := (keeps_deductFee_active hkept tx false).of_eq hfee.deducted hpayer
    have hothers' : ActiveIs active others := (congrArg activeOf hsame).trans hpaid
    have htracked' : ActiveIs active tracked :=
      (keeps_trackCalls (hkept.exec active) hp hothers).of_eq htracked hothers'
    exact (keeps_incrementSequence_active _ tx).of_eq hincrement htracked'
  · exact absurd (congrArg Prod.fst hante) hno

theorem keeps_classicFlow_active (tx : Tx) :
    Keeps (Preserving fun t : TxContext ρ => ActiveIs active t.ctx) (app.classicFlow tx) := by
  refine keeps_zoom (?_ : Keeps (Preserving (ActiveIs active)) _) fun _ _ h => h
  refine keeps_bind (keeps_deductFee_active hkept tx false) fun _ => ?_
  refine keeps_bind ((hkept.exec active).setPubKeys tx) fun _ => ?_
  refine keeps_bind (fun ctx h => (activeOf_of_frame (keeps_verifySequences tx ctx)).trans h) fun _ => ?_
  refine keeps_bind ((hkept.exec active).verifySignatures tx) fun _ => ?_
  exact keeps_bind (keeps_incrementSequence_active _ tx) fun _ => (hkept.exec active).redundantRelay tx

/-- The ante handlers leave the switch alone, and choose the flow by it. -/
theorem anteHandler_active {flow : Flow} (h : app.anteHandler tx t = (.ok flow, t')) (hactive : ActiveIs active t.ctx) :
    ActiveIs active t'.ctx ∧ flow = flowOf active tx := by
  obtain ⟨_, t₁, hsetUp, h⟩ := bind_eq_ok.mp h
  obtain ⟨ctx₁, hexec, rfl⟩ := zoom_eq_ok.mp hsetUp
  obtain ⟨selected, t₂, hbreak, h⟩ := bind_eq_ok.mp h
  obtain ⟨ctx₂, hroute, rfl⟩ := zoom_eq_ok.mp hbreak
  have hactive₁ : ActiveIs active ctx₁ := ((hkept.exec active).setUp tx).of_eq hexec hactive
  have hactive₂ : ActiveIs active ctx₂ :=
    (activeOf_of_frame ((keeps_isCircuitBreakActive _ tx).of_eq hroute)).trans hactive₁
  have hselected := isCircuitBreakActive_eq_ok hroute
  rw [show activeOf ctx₁.store = active from hactive₁] at hselected
  rw [flowOf, ← hselected]
  cases selected with
  | none =>
    obtain ⟨_, t₃, hflow, hpure⟩ := bind_eq_ok.mp h
    obtain ⟨rfl, rfl⟩ := pure_eq_ok.mp hpure
    exact ⟨(keeps_classicFlow_active hkept tx).of_eq hflow hactive₂, rfl⟩
  | some selected =>
    obtain ⟨_, t₃, hflow, hpure⟩ := bind_eq_ok.mp h
    obtain ⟨rfl, rfl⟩ := pure_eq_ok.mp hpure
    exact ⟨authenticatorFlow_active hkept hflow hactive₂, rfl⟩

end active

/-! ## The post handler -/

section post

variable {app : App ρ} {tx : Tx}

variable {selected : List UInt64} {ctx : Context ρ}

theorem prepareConfirm_eq_ok {feeTx : FeeTx} {i : ℕ} {msg : Msg} {c : Confirm ρ} {ctx' : Context ρ}
    (h : app.prepareConfirm feeTx selected tx i msg ctx = (.ok c, ctx')) :
    (∃ signers, msg.signers = some (c.account :: signers)) ∧ selected[i]? = some c.selectedId := by
  unfold App.prepareConfirm at h
  rcases hsigners : msg.signers with _ | ⟨_ | ⟨account, signers⟩⟩ <;> rw [hsigners] at h
  · cases h
  · cases h
  · obtain ⟨selectedId, _, hid, h⟩ := bind_eq_ok.mp h
    obtain ⟨_, _, -, h⟩ := bind_eq_ok.mp h
    obtain ⟨_, _, -, h⟩ := bind_eq_ok.mp h
    obtain ⟨_, _, -, h⟩ := bind_eq_ok.mp h
    obtain ⟨rfl, -⟩ := pure_eq_ok.mp h
    exact ⟨⟨signers, rfl⟩, Outcome.ofOption_eq_ok.mp (ofOutcome_eq_ok.mp hid).1⟩

theorem forEach_confirmMsg {feeTx : FeeTx} :
    ∀ {msgs : List Msg} {i : ℕ} {s s' : PostState ρ} {us : List Unit},
      forEach (app.confirmMsg feeTx selected tx) i msgs s = (.ok us, s') →
        ∃ cs, s'.confirmations = s.confirmations ++ cs ∧ Confirmed selected i msgs cs
  | [], i, s, s', us, h => by
    obtain ⟨-, rfl⟩ := pure_eq_ok.mp h
    exact ⟨[], by simp, rfl⟩
  | msg :: msgs, i, s, s', us, h => by
    obtain ⟨_, s₁, hfirst, h⟩ := bind_eq_ok.mp h
    obtain ⟨_, s₂, hrest, h⟩ := bind_eq_ok.mp h
    obtain ⟨-, rfl⟩ := pure_eq_ok.mp h
    obtain ⟨c, s₀, hzoom, hconfirm⟩ := bind_eq_ok.mp hfirst
    obtain ⟨ctx, hprepare, rfl⟩ := zoom_eq_ok.mp hzoom
    obtain ⟨⟨signers, hsigners⟩, hid⟩ := prepareConfirm_eq_ok hprepare
    obtain ⟨cs, hcs, hconfirmed⟩ := forEach_confirmMsg hrest
    obtain ⟨hexit, hs₁⟩ := Prod.mk.inj hconfirm
    refine ⟨⟨i, c.account, c.selectedId, true⟩ :: cs, ?_, c.account, signers, c.selectedId, cs, hsigners,
      hid, rfl, hconfirmed⟩
    rw [hcs, ← hs₁, hexit]
    simp [Exit.isOk]

/-- The post handler confirms nothing in the classic flow. -/
theorem postHandle_of_classic (h : route (activeOf ctx.store) tx = none) :
    (app.postHandle tx ⟨ctx, []⟩).2.confirmations = [] := by
  refine state_bind (Q := fun s : PostState ρ => s.confirmations = []) rfl fun selected t hzoom => ?_
  obtain ⟨ctx₁, hroute, rfl⟩ := zoom_eq_ok.mp hzoom
  rw [isCircuitBreakActive_eq_ok hroute, h]
  rfl

theorem postHandle_eq_ok {s : PostState ρ} {u : Unit} (h : app.postHandle tx ⟨ctx, []⟩ = (.ok u, s))
    (hselected : route (activeOf ctx.store) tx = some selected) : Confirmed selected 0 tx.msgs s.confirmations := by
  obtain ⟨_, s₁, hzoom, h⟩ := bind_eq_ok.mp h
  obtain ⟨ctx₁, hroute, rfl⟩ := zoom_eq_ok.mp hzoom
  rw [isCircuitBreakActive_eq_ok hroute, hselected] at h
  cases hfee : tx.feeTx with
  | none =>
    simp [hfee] at h
  | some feeTx =>
    rw [hfee] at h
    obtain ⟨us, s₂, hloop, h⟩ := bind_eq_ok.mp h
    obtain ⟨-, rfl⟩ := pure_eq_ok.mp h
    obtain ⟨cs, hcs, hconfirmed⟩ := forEach_confirmMsg hloop
    rw [hcs]
    exact hconfirmed

end post

/-! ## Agreement -/

section agreement

variable {app : App ρ} {header : Header} {s : MultiStore ρ} {tx : Tx} {t : TxContext ρ} {flow : Flow}
  {ctx : Context ρ}

theorem runTx_of_msgsOk (hante : app.anteHandler tx (App.txContext header s tx) = (.ok flow, t))
    (hmsgs : app.runMsgs tx t.ctx = (.ok (), ctx)) :
    app.runTx header s tx =
      ⟨if (app.postHandle tx ⟨ctx, []⟩).1.isOk then (app.postHandle tx ⟨ctx, []⟩).2.ctx.store else t.ctx.store,
        some flow, true, (app.postHandle tx ⟨ctx, []⟩).1.isOk,
        (app.postHandle tx ⟨ctx, []⟩).2.confirmations⟩ := by
  simp only [App.runTx, hante, App.runMsgsAndPost, hmsgs]

theorem runTx_of_msgsError {e : Err} (hante : app.anteHandler tx (App.txContext header s tx) = (.ok flow, t))
    (hmsgs : app.runMsgs tx t.ctx = (.error e, ctx)) :
    app.runTx header s tx = ⟨t.ctx.store, some flow, false, false, (app.postHandle tx ⟨ctx, []⟩).2.confirmations⟩ := by
  simp only [App.runTx, hante, App.runMsgsAndPost, hmsgs]

theorem runTx_of_rejected (h : (app.anteHandler tx (App.txContext header s tx)).1.isOk = false) :
    app.runTx header s tx = ⟨(app.anteHandler tx (App.txContext header s tx)).2.block, none, false, false, []⟩ := by
  rcases hante : app.anteHandler tx (App.txContext header s tx) with ⟨x, t⟩
  rw [hante] at h
  cases x with
  | ok flow => cases h
  | error e | outOfGas | panicked => simp only [App.runTx, hante]

theorem Confirmed.ne_nil {selected : List UInt64} {i : ℕ} {msgs : List Msg} {cs : List Confirmation}
    (h : Confirmed selected i msgs cs) (hmsgs : msgs ≠ []) : cs ≠ [] := by
  cases msgs with
  | nil => exact absurd rfl hmsgs
  | cons msg msgs =>
    obtain ⟨_, _, _, _, -, -, rfl, -⟩ := h
    exact List.cons_ne_nil _ _

theorem selectedAuthenticators_of_route {active : Bool} {selected : List UInt64} (h : route active tx = some selected) :
    selectedAuthenticators tx = some selected := by
  unfold route at h
  split at h
  · exact h
  · cases h

theorem msgs_ne_nil_of_switched (h : activeAfter s tx ≠ activeOf s) : tx.msgs ≠ [] := by
  intro hmsgs
  simp [activeAfter, switches, hmsgs] at h

/-- A transaction whose messages are run: what they and the post handler come to. -/
structure Executed (app : App ρ) (tx : Tx) (active : Bool) (r : App.TxResult ρ) (start : Context ρ)
    (x : Exit Err Unit) (ctx : Context ρ) : Prop where
  entered : ActiveIs active start
  msgs : app.runMsgs tx start = (x, ctx)
  flow : r.flow = some (flowOf active tx)
  confirmations : r.confirmations = (app.postHandle tx ⟨ctx, []⟩).2.confirmations
  committed : r.committed = true → x = .ok () ∧ r.msgsOk = true ∧ (app.postHandle tx ⟨ctx, []⟩).1.isOk = true

section kept

variable (hkept : ActiveKept app)
include hkept

theorem runTx_executed (header : Header) (s : MultiStore ρ) (tx : Tx) :
    (app.runTx header s tx).committed = false ∧ (app.runTx header s tx).confirmations = [] ∨
      ∃ start x ctx, Executed app tx (activeOf s) (app.runTx header s tx) start x ctx := by
  cases hok : (app.anteHandler tx (App.txContext header s tx)).1.isOk with
  | false =>
    rw [runTx_of_rejected hok]
    exact .inl ⟨rfl, rfl⟩
  | true =>
    obtain ⟨flow, hante⟩ := eq_ok_of_isOk hok
    set t := (app.anteHandler tx (App.txContext header s tx)).2
    have hentry : ActiveIs (activeOf s) (App.txContext header s tx).ctx := rfl
    obtain ⟨hactive, rfl⟩ := anteHandler_active hkept hante hentry
    rcases hmsgs : app.runMsgs tx t.ctx with ⟨x, ctx⟩
    cases x with
    | ok u =>
      rw [runTx_of_msgsOk hante hmsgs]
      exact .inr ⟨t.ctx, _, ctx, hactive, hmsgs, rfl, rfl, fun hpost => ⟨rfl, rfl, hpost⟩⟩
    | error e =>
      rw [runTx_of_msgsError hante hmsgs]
      exact .inr ⟨t.ctx, _, ctx, hactive, hmsgs, rfl, rfl, fun hpost => Bool.noConfusion hpost⟩
    | outOfGas | panicked =>
      simp [App.runTx, hante, App.runMsgsAndPost, hmsgs]

omit hkept in
/-- If the messages leave the transaction its flow, the post handler follows the ante handler. -/
theorem Executed.agrees {active : Bool} {r : App.TxResult ρ} {start ctx : Context ρ} {x : Exit Err Unit}
    (h : Executed app tx active r start x ctx) (hroute : route (activeOf ctx.store) tx = route active tx) :
    FlowAgrees tx r := by
  have hflow := h.flow
  unfold flowOf at hflow
  constructor
  · intro hauthenticator _ hcommitted
    obtain ⟨-, -, hpost⟩ := h.committed hcommitted
    obtain ⟨_, hpost⟩ := eq_ok_of_isOk hpost
    cases hselected : route active tx with
    | none =>
      simp [hauthenticator, hselected] at hflow
    | some selected =>
      refine ⟨selected, selectedAuthenticators_of_route hselected, ?_⟩
      rw [h.confirmations]
      exact postHandle_eq_ok hpost (hroute.trans hselected)
  · intro hclassic
    rw [h.confirmations]
    refine postHandle_of_classic (hroute.trans ?_)
    cases hselected : route active tx with
    | none => rfl
    | some selected =>
      simp [hclassic, hselected] at hflow

theorem flowAgrees_of_kept (h : selectedAuthenticators tx = none ∨ ∀ active ∈ switches tx, active = activeOf s) :
    FlowAgrees tx (app.runTx header s tx) := by
  rcases runTx_executed hkept header s tx with ⟨hcommitted, hnil⟩ | ⟨start, x, ctx, hrun⟩
  · refine ⟨fun _ _ hcommitted' => ?_, fun _ => hnil⟩
    simp [hcommitted] at hcommitted'
  · refine hrun.agrees ?_
    rcases h with hnone | hswitches
    · simp [route, hnone]
    · have hactive : ActiveIs (activeOf s) ctx := (keeps_runMsgs_active hkept hswitches).of_eq hrun.msgs hrun.entered
      rw [show activeOf ctx.store = _ from hactive]

theorem Executed.activeAfter {start ctx : Context ρ} {x : Exit Err Unit} {r : App.TxResult ρ}
    (h : Executed app tx (activeOf s) r start x ctx) (hx : x = .ok ()) :
    activeOf ctx.store = activeAfter s tx := by
  have hmsgs := h.msgs
  rw [hx] at hmsgs
  rw [runMsgs_active hkept hmsgs, show activeOf start.store = _ from h.entered]
  rfl

/-- A transaction that selects authenticators, takes effect and switches the smart accounts over is confirmed in the
classic flow or not in the other. -/
theorem not_flowAgrees_of_switched (hcommitted : (app.runTx header s tx).committed = true)
    (hselected : selectedAuthenticators tx ≠ none) (hswitched : activeAfter s tx ≠ activeOf s) :
    ¬ FlowAgrees tx (app.runTx header s tx) := by
  rcases runTx_executed hkept header s tx with ⟨hnot, -⟩ | ⟨start, x, ctx, hrun⟩
  · simp [hnot] at hcommitted
  obtain ⟨hx, hok, hpost⟩ := hrun.committed hcommitted
  obtain ⟨_, hpost⟩ := eq_ok_of_isOk hpost
  obtain ⟨selected, hselected⟩ := Option.ne_none_iff_exists'.mp hselected
  have hmsgs := msgs_ne_nil_of_switched hswitched
  have hafter := hrun.activeAfter hkept hx
  have hflow := hrun.flow
  rintro ⟨hconfirmed, hclassic⟩
  cases hactive : activeOf s with
  | true =>
    rw [hactive, ne_eq, Bool.not_eq_true] at hswitched
    obtain ⟨_, -, hall⟩ := hconfirmed (by simp [hflow, flowOf, route, hactive, hselected]) hok hcommitted
    refine hall.ne_nil hmsgs (hrun.confirmations.trans (postHandle_of_classic ?_))
    rw [hafter, hswitched]
    rfl
  | false =>
    rw [hactive, ne_eq, Bool.not_eq_false] at hswitched
    have hnil := hclassic (by simp [hflow, flowOf, route, hactive])
    have hroute : route (activeOf ctx.store) tx = some selected := by
      rw [hafter, hswitched]
      exact hselected
    exact (postHandle_eq_ok hpost hroute).ne_nil hmsgs (hrun.confirmations.symm.trans hnil)

end kept

end agreement

theorem Sample.app_activeKept : ActiveKept app := otherModules fun _ hcode ctx => congrArg activeOf (hcode ctx)

/-- The sample stores, with the smart accounts switched off. -/
def Sample.inactive : MultiStore Unit :=
  { store with
    smartAccount := store.smartAccount.set paramsKey
      (.params { defaultParams with isSmartAccountActive := false, circuitBreakerControllers := [alice] }) }

end SmartAccount
