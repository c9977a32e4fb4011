/-
  The circuit breaker.  While the module is switched off nobody but the governor changes anything of it.
-/
import TerpCore.SmartAccount.App
import TerpCore.SmartAccount.Ids

namespace SmartAccount

open Lib Proc

variable {ρ : Type} {k : Keeper ρ} {rows : KVStore Row} {params : Params} {ctx ctx' : Context ρ}

/-- A message of a governor that switches the module on. -/
def Keeper.SwitchesOn (k : Keeper ρ) (msg : Msg) : Prop :=
  ∃ sender, msg.call = .setActiveState sender true ∧ k.accAddressFromBech32 sender = some k.circuitBreakerGovernor

/-- The rows after a message, handled in any context. -/
def App.handled (app : App ρ) (rows : KVStore Row) (e : Context ρ × Msg) : KVStore Row :=
  (app.handle e.2 { e.1 with store := { e.1.store with smartAccount := rows } }).2.rows

theorem getParams_eq_ok {p : Params} (hparams : ctx.rows.get paramsKey = some (.params params))
    (h : k.getParams ctx = (.ok p, ctx')) : p = params ∧ ctx'.rows = ctx.rows := by
  obtain ⟨row, c, hrow, h⟩ := bind_eq_ok.mp h
  obtain ⟨rfl, hframe⟩ := getRow_eq_ok hrow
  rw [hparams] at h
  obtain ⟨rfl, rfl⟩ := pure_eq_ok.mp h
  exact ⟨rfl, rows_of_frame hframe⟩

section off

variable (hparams : ctx.rows.get paramsKey = some (.params params)) (hoff : params.isSmartAccountActive = false)
include hparams hoff

theorem rows_of_notActive (p : Proc (Context ρ) Err Unit) :
    ((do let active ← k.getIsSmartAccountActive; require active .notActive; p) ctx).2.rows = ctx.rows := by
  refine state_bind (Q := fun c : Context ρ => c.rows = ctx.rows)
    (rows_of_frame (keeps_bind (keeps_getParams k) (fun _ => keeps_pure _) ctx)) fun active t h => ?_
  obtain ⟨p, c, hp, h⟩ := bind_eq_ok.mp h
  obtain ⟨rfl, hc⟩ := getParams_eq_ok hparams hp
  obtain ⟨rfl, rfl⟩ := pure_eq_ok.mp h
  rw [hoff]
  exact hc

theorem rows_setActiveState : (k.setActiveState false ctx).2.rows = ctx.rows := by
  refine state_bind (Q := fun c : Context ρ => c.rows = ctx.rows) (rows_of_frame (keeps_getParams k ctx))
    fun p t h => ?_
  obtain ⟨rfl, ht⟩ := getParams_eq_ok hparams h
  rw [← hoff]
  have hsame : t.rows.set paramsKey (.params p) = t.rows := by
    rw [ht]
    ext key : 1
    rw [KVStore.get_set]
    split_ifs with hkey
    · rw [← hkey, hparams]
    · rfl
  unfold Keeper.setParams
  split
  · exact ht
  · rcases rows_set_cases k paramsKey (.params p) t with h | h
    · exact h.trans ht
    · exact h.trans (hsame.trans ht)

theorem rows_handle {app : App ρ} {msg : Msg} (hrouter : (app.router msg ctx).store.smartAccount = ctx.rows)
    (hmsg : ¬ app.keeper.SwitchesOn msg) : (app.handle msg ctx).2.rows = ctx.rows := by
  obtain ⟨typeURL, value, signers, call⟩ := msg
  cases call with
  | addAuthenticator | removeAuthenticator => exact rows_of_notActive hparams hoff _
  | setActiveState sender active =>
    refine state_bind (Q := fun c : Context ρ => c.rows = ctx.rows) (by rw [ofOutcome_state]) fun signer t h => ?_
    obtain ⟨hsigner, rfl⟩ := ofOutcome_eq_ok.mp h
    cases active with
    | true =>
      have hother : signer ≠ app.keeper.circuitBreakerGovernor := by
        rintro rfl
        exact hmsg ⟨sender, rfl, Outcome.ofOption_eq_ok.mp hsigner⟩
      simp only [if_true, decide_eq_false hother]
      rfl
    | false =>
      refine state_bind (Q := fun c : Context ρ => c.rows = ctx.rows) (rows_of_frame (keeps_getParams _ ctx))
        fun p t h => ?_
      obtain ⟨-, ht⟩ := getParams_eq_ok hparams h
      generalize p.circuitBreakerControllers.any _ = isAuthorized
      cases isAuthorized with
      | true => exact (rows_setActiveState (ht ▸ hparams) hoff).trans ht
      | false => exact ht
  | other => exact hrouter

end off

/-- **Off is off**: from rows that switch the module off, no messages change the rows, in any order and number, unless
one is the governor's that switches it on again. -/
theorem breaker_freezes (app : App ρ) (hrouter : ∀ msg ctx, (app.router msg ctx).store.smartAccount = ctx.rows)
    (rows : KVStore Row) (params : Params) (hparams : rows.get paramsKey = some (.params params))
    (hoff : params.isSmartAccountActive = false) (events : List (Context ρ × Msg))
    (hgovernor : ∀ e ∈ events, ¬ app.keeper.SwitchesOn e.2) : run app.handled rows events = rows :=
  run_invariant (I := (· = rows)) (fun _ _ hrows he => hrows ▸ rows_handle (hrows ▸ hparams) hoff (hrouter _ _) he) rows
    events (Along.of_mem hgovernor rows) rfl

open Sample in
/-- alice may switch the module off again, and no more. -/
theorem off_for_alice :
    let rows := store.smartAccount.set paramsKey (.params ⟨0, false, [alice]⟩)
    let calls : List Call := [.setActiveState alice true, .removeAuthenticator alice 1, .setActiveState alice false]
    run app.handled rows (calls.map fun call => (emptyStore, ⟨ascii "m", some [], some [alice], call⟩)) = rows :=
  have halice : app.keeper.accAddressFromBech32 alice ≠ some app.keeper.circuitBreakerGovernor := by decide
  breaker_freezes app (fun _ _ => rfl) _ ⟨0, false, [alice]⟩ (KVStore.get_set_self ..) rfl _
    (by simp [Keeper.SwitchesOn, halice])

end SmartAccount
