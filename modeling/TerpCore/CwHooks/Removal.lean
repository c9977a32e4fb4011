/-
  Registrations that can be removed.

  Whoever removes a contract must be both its creator and its admin.
-/
import TerpCore.CwHooks.Keeper

namespace CwHooks

open Lib Outcome

/-- No registration is stuck, and a contract with an admin is left to the admin. -/
structure Unstuck (k : Keeper) (s : State) : Prop where
  removable : ∀ (hook : Hook) c, isContractRegistered s.store hook.keyPrefix c = true →
    ∃ info sender account t, s.contracts c = some info ∧ k.codec.accAddressFromBech32 info.controller = some account ∧
      k.codec.accAddressFromBech32 sender = some account ∧ k.unregister hook s sender (k.codec.string c) = .ok t
  adminOnly : ∀ hook sender contractAddress t,
    k.register hook s sender contractAddress = .ok t ∨ k.unregister hook s sender contractAddress = .ok t →
      ∀ c info, k.codec.accAddressFromBech32 contractAddress = some c → s.contracts c = some info →
        info.admin ≠ [] → sender = info.admin

/-- A registered contract is given an admin who is not its creator. -/
def HandsOver (k : Keeper) (s : State) : Msg → Prop
  | .updateAdmin authZ granted sender contract newAdmin =>
    ∃ caller c a info, k.codec.accAddressFromBech32 sender = some caller ∧
      k.codec.accAddressFromBech32 contract = some c ∧ k.codec.accAddressFromBech32 newAdmin = some a ∧
      Wasm.equalFold sender newAdmin = false ∧ s.contracts c = some info ∧
      Wasm.MayModify k.codec authZ granted info caller ∧
      (∃ hook : Hook, isContractRegistered s.store hook.keyPrefix c = true) ∧ k.codec.string a ≠ info.creator
  | _ => False

/-- The address and the creator of every contract can be read. -/
def Created (k : Keeper) (contracts : Wasm.Contracts) : Prop :=
  ∀ c info, contracts c = some info → k.codec.accAddressFromBech32 (k.codec.string c) = some c ∧
    (k.codec.accAddressFromBech32 info.creator).isSome

/-- A contract has no admin, or its creator is. -/
def OneOwner (info : Wasm.ContractInfo) : Prop := info.admin = [] ∨ info.admin = info.creator

/-- Every registered contract has one owner. -/
def Kept (s : State) : Prop :=
  ∀ (hook : Hook) c, isContractRegistered s.store hook.keyPrefix c = true →
    ∃ info, s.contracts c = some info ∧ OneOwner info

section owners

variable {k : Keeper} {s t : State}

variable {c : AccAddress} {info : Wasm.ContractInfo}

theorem eq_admin_of_authorized {sender : Bytes} (h : k.isContractSenderAuthorized s.contracts sender c = .ok ())
    (hinfo : s.contracts c = some info) (hadmin : info.admin ≠ []) : sender = info.admin := by
  obtain ⟨info', hinfo', -, hsender⟩ := isContractSenderAuthorized_eq_ok.mp h
  cases hinfo.symm.trans hinfo'
  exact (hsender.resolve_left hadmin).symm

theorem adminOnly (hook : Hook) (sender contractAddress : Bytes) (t : State)
    (h : k.register hook s sender contractAddress = .ok t ∨ k.unregister hook s sender contractAddress = .ok t)
    (c : AccAddress) (info : Wasm.ContractInfo) (hc : k.codec.accAddressFromBech32 contractAddress = some c)
    (hinfo : s.contracts c = some info) (hadmin : info.admin ≠ []) : sender = info.admin := by
  rcases h with h | h
  · obtain ⟨-, c', hc', -, hauthorized, -⟩ := register_eq_ok.mp h
    cases hc.symm.trans hc'
    exact eq_admin_of_authorized hauthorized hinfo hadmin
  · obtain ⟨-, c', hc', -, hauthorized, -⟩ := unregister_eq_ok.mp h
    cases hc.symm.trans hc'
    exact eq_admin_of_authorized hauthorized hinfo hadmin

variable (hempty : k.codec.accAddressFromBech32 [] = none)
include hempty

theorem string_ne_nil {text : Bytes} {a : AccAddress} (ha : k.codec.accAddressFromBech32 text = some a) :
    k.codec.string a ≠ [] := by
  intro hnil
  have hread := k.codec.reads_string ha
  simp [hnil, hempty] at hread

theorem creator_ne_nil (hs : Created k s.contracts) (hinfo : s.contracts c = some info) :
    info.creator ≠ [] := by
  intro hnil
  have hread := (hs c info hinfo).2
  simp [hnil, hempty] at hread

theorem oneOwner_iff (hs : Created k s.contracts) (hinfo : s.contracts c = some info) :
    OneOwner info ↔ ∃ sender, k.isContractSenderAuthorized s.contracts sender c = .ok () := by
  constructor
  · intro hone
    exact ⟨info.creator, isContractSenderAuthorized_eq_ok.mpr ⟨info, hinfo, .inr rfl, hone⟩⟩
  · rintro ⟨sender, h⟩
    obtain ⟨info', hinfo', hcreator, hadmin⟩ := isContractSenderAuthorized_eq_ok.mp h
    cases hinfo.symm.trans hinfo'
    obtain rfl := hcreator.resolve_left (creator_ne_nil hempty hs hinfo)
    exact hadmin

theorem unstuck_iff_kept (hs : Created k s.contracts) : Unstuck k s ↔ Kept s := by
  constructor
  · intro h hook c hregistered
    obtain ⟨info, sender, account, t, hinfo, -, -, hremoved⟩ := h.removable hook c hregistered
    obtain ⟨-, c', hc', -, hauthorized, -⟩ := unregister_eq_ok.mp hremoved
    cases (hs c info hinfo).1.symm.trans hc'
    exact ⟨info, hinfo, (oneOwner_iff hempty hs hinfo).mpr ⟨sender, hauthorized⟩⟩
  · intro h
    refine ⟨fun hook c hregistered => ?_, adminOnly⟩
    obtain ⟨info, hinfo, hone⟩ := h hook c hregistered
    obtain ⟨hread, hcreator⟩ := hs c info hinfo
    obtain ⟨account, haccount⟩ := Option.isSome_iff_exists.mp hcreator
    -- the creator is the controller, be there an admin or not
    have hcontroller : info.controller = info.creator := by
      rw [Wasm.ContractInfo.controller]
      split_ifs with hadmin
      · rfl
      · exact hone.resolve_left hadmin
    have hremoved := unregister_eq_ok.mpr ⟨hcreator, c, hread, hregistered,
      isContractSenderAuthorized_eq_ok.mpr ⟨info, hinfo, .inr rfl, hone⟩, rfl⟩
    exact ⟨info, info.creator, account, _, hinfo, by rw [hcontroller, haccount], haccount, hremoved⟩

end owners

/-! ## One message -/

section step

variable {k : Keeper} {s t : State}

/-- What a message does: it registers a contract with one owner, removes one, leaves the registrations and the
contracts alone, or changes the admin of one contract. -/
inductive Effect (k : Keeper) (s : State) : Msg → State → Prop
  | registered {msg c} {hook : Hook} (hnot : ¬ HandsOver k s msg) (sender : Bytes)
      (hread : k.codec.accAddressFromBech32 (k.codec.string c) = some c)
      (hauthorized : k.isContractSenderAuthorized s.contracts sender c = .ok ()) :
      Effect k s msg { s with store := setContract s.store hook.keyPrefix c }
  | removed {msg c} {hook : Hook} (hnot : ¬ HandsOver k s msg) :
      Effect k s msg { s with store := deleteContract s.store hook.keyPrefix c }
  | params {msg p} (hnot : ¬ HandsOver k s msg) : Effect k s msg { s with store := setParams s.store p }
  | admin {msg c info} (admin : Option AccAddress) (hinfo : s.contracts c = some info)
      (hread : ∀ a, admin = some a → ∃ text, k.codec.accAddressFromBech32 text = some a)
      (hover : HandsOver k s msg ↔ (∃ hook : Hook, isContractRegistered s.store hook.keyPrefix c = true) ∧
        ∃ a, admin = some a ∧ k.codec.string a ≠ info.creator) :
      Effect k s msg { s with
        contracts := Wasm.mustStoreContractInfo s.contracts c { info with admin := admin.elim [] k.codec.string } }

theorem effect_register {hook : Hook} {sender contractAddress : Bytes} {msg : Msg} (hnot : ¬ HandsOver k s msg)
    (h : k.register hook s sender contractAddress = .ok t) : Effect k s msg t := by
  obtain ⟨-, c, hc, -, hauthorized, rfl⟩ := register_eq_ok.mp h
  exact .registered hnot sender (k.codec.reads_string hc) hauthorized

theorem effect_unregister {hook : Hook} {sender contractAddress : Bytes} {msg : Msg} (hnot : ¬ HandsOver k s msg)
    (h : k.unregister hook s sender contractAddress = .ok t) : Effect k s msg t := by
  obtain ⟨-, c, -, -, -, rfl⟩ := unregister_eq_ok.mp h
  exact .removed hnot

theorem handle_effect {msg : Msg} (h : k.handle s msg = .ok t) : Effect k s msg t := by
  cases msg with
  | registerStaking | registerGovernance => exact effect_register id h
  | unregisterGovernance | unregisterStaking => exact effect_unregister id h
  | updateParams =>
    obtain ⟨_, -, h⟩ := bind_eq_ok.mp h
    obtain ⟨_, -, h⟩ := bind_eq_ok.mp h
    cases h
    exact .params id
  | updateAdmin authZ granted sender contract newAdmin =>
    obtain ⟨contracts, hupdate, rfl⟩ := onContracts_eq_ok.mp h
    obtain ⟨caller, c, a, hcaller, hc, ha, hfold, hset⟩ := Wasm.updateAdmin_eq_ok.mp hupdate
    obtain ⟨info, hinfo, hallowed, rfl⟩ := Wasm.setContractAdmin_eq_ok.mp hset
    refine .admin (some a) hinfo (fun _ heq => ⟨newAdmin, Option.some.inj heq ▸ ha⟩) ⟨?_, ?_⟩
    · rintro ⟨caller', c', a', info', hcaller', hc', ha', -, hinfo', -, hregistered, hother⟩
      cases hc.symm.trans hc'
      cases hinfo.symm.trans hinfo'
      cases ha.symm.trans ha'
      exact ⟨hregistered, a, rfl, hother⟩
    · rintro ⟨hregistered, a', heq, hother⟩
      cases heq
      exact ⟨caller, c, a, info, hcaller, hc, ha, hfold, hinfo, hallowed, hregistered, hother⟩
  | clearAdmin =>
    obtain ⟨contracts, hclear, rfl⟩ := onContracts_eq_ok.mp h
    obtain ⟨caller, c, -, -, hset⟩ := Wasm.clearAdmin_eq_ok.mp hclear
    obtain ⟨info, hinfo, -, rfl⟩ := Wasm.setContractAdmin_eq_ok.mp hset
    exact .admin none hinfo (by simp) (by simp [HandsOver])

theorem handle_of_handsOver {msg : Msg} (h : HandsOver k s msg) : ∃ t, k.handle s msg = .ok t := by
  cases msg with
  | updateAdmin authZ granted sender contract newAdmin =>
    obtain ⟨caller, c, a, info, hcaller, hc, ha, hfold, hinfo, hallowed, -⟩ := h
    have hset : Wasm.setContractAdmin k.codec s.contracts authZ granted c caller (some a) = _ :=
      Wasm.setContractAdmin_eq_ok.mpr ⟨info, hinfo, hallowed, rfl⟩
    exact ⟨_, onContracts_eq_ok.mpr ⟨_, Wasm.updateAdmin_eq_ok.mpr ⟨caller, c, a, hcaller, hc, ha, hfold, hset⟩, rfl⟩⟩
  | _ => exact h.elim

theorem step_created (s : State) (msg : Msg) (hs : Created k s.contracts) : Created k (k.step s msg).contracts := by
  refine orElse_elim (P := fun t : State => Created k t.contracts) hs fun t h => ?_
  cases handle_effect h with
  | registered | removed | params => exact hs
  | @admin c info admin hinfo hread hover =>
    intro c' info' hinfo'
    by_cases hc : c' = c
    · subst hc
      cases (Wasm.mustStoreContractInfo_self ..).symm.trans hinfo'
      exact hs c' info hinfo
    · exact hs c' info' ((Wasm.mustStoreContractInfo_of_ne _ _ hc).symm.trans hinfo')

variable (hempty : k.codec.accAddressFromBech32 [] = none)
include hempty

theorem effect_kept_iff {msg : Msg} (hs : Created k s.contracts) (hkept : Kept s) (h : Effect k s msg t) :
    Kept t ↔ ¬ HandsOver k s msg := by
  cases h with
  | @registered c hook hnot sender hread hauthorized =>
    refine iff_of_true (fun hook' c' hregistered => ?_) hnot
    rw [isContractRegistered_setContract, Bool.or_eq_true, decide_eq_true_eq] at hregistered
    rcases hregistered with ⟨rfl, rfl⟩ | hold
    · obtain ⟨info, hinfo, -⟩ := isContractSenderAuthorized_eq_ok.mp hauthorized
      exact ⟨info, hinfo, (oneOwner_iff hempty hs hinfo).mpr ⟨sender, hauthorized⟩⟩
    · exact hkept hook' c' hold
  | removed hnot =>
    refine iff_of_true (fun hook' c' hregistered => ?_) hnot
    rw [isContractRegistered_deleteContract, Bool.and_eq_true] at hregistered
    exact hkept hook' c' hregistered.2
  | params hnot =>
    refine iff_of_true (fun hook' c' hregistered => ?_) hnot
    rw [isContractRegistered_setParams] at hregistered
    exact hkept hook' c' hregistered
  | @admin c info admin hinfo hread hover =>
    rw [hover]
    constructor
    · rintro h ⟨⟨hook, hregistered⟩, a, rfl, hother⟩
      obtain ⟨info', hinfo', hone⟩ := h hook c hregistered
      cases (Wasm.mustStoreContractInfo_self ..).symm.trans hinfo'
      rcases hone with hnone | hsame
      · obtain ⟨text, ha⟩ := hread a rfl
        exact string_ne_nil hempty ha hnone
      · exact hother hsame
    · intro hnot hook' c' hregistered
      by_cases hc : c' = c
      · subst hc
        refine ⟨{ info with admin := admin.elim [] k.codec.string }, Wasm.mustStoreContractInfo_self .., ?_⟩
        cases admin with
        | none => exact .inl rfl
        | some a => exact .inr (by_contra fun hother => hnot ⟨⟨hook', hregistered⟩, a, rfl, hother⟩)
      · obtain ⟨info', hinfo', hone⟩ := hkept hook' c' hregistered
        exact ⟨info', (Wasm.mustStoreContractInfo_of_ne _ _ hc).trans hinfo', hone⟩

theorem step_kept_iff (s : State) (msg : Msg) (hs : Created k s.contracts) (hkept : Kept s) :
    Kept (k.step s msg) ↔ ¬ HandsOver k s msg := by
  rw [Keeper.step]
  rcases hhandle : k.handle s msg with t | e | _
  · exact effect_kept_iff hempty hs hkept (handle_effect hhandle)
  · refine iff_of_true hkept fun hover => ?_
    obtain ⟨t, ht⟩ := handle_of_handsOver hover
    simp [hhandle] at ht
  · refine iff_of_true hkept fun hover => ?_
    obtain ⟨t, ht⟩ := handle_of_handsOver hover
    simp [hhandle] at ht

end step

/-! ## Every run -/

/-- Nothing is registered yet. -/
def start (contracts : Wasm.Contracts) : State := ⟨.empty, contracts⟩

theorem start_kept (contracts : Wasm.Contracts) : Kept (start contracts) := by
  intro hook c hregistered
  simp [start, isContractRegistered, KVStore.has] at hregistered

/-- **No registration gets stuck** in a run from no registrations if and only if the run hands no registered contract
to an admin that is not its creator. -/
theorem unstuck_iff (k : Keeper) (hempty : k.codec.accAddressFromBech32 [] = none) (contracts : Wasm.Contracts)
    (hcreated : Created k contracts) (msgs : List Msg) :
    (∀ before, before <+: msgs → Unstuck k (run k.step (start contracts) before)) ↔
      Along k.step (fun s msg => ¬ HandsOver k s msg) (start contracts) msgs := by
  have hreached : ∀ before, Created k (run k.step (start contracts) before).contracts := fun before =>
    run_preserves step_created (start contracts) before hcreated
  rw [← forall_prefix_iff_along step_created (step_kept_iff hempty) hcreated (start_kept contracts)]
  exact forall₂_congr fun before _ => unstuck_iff_kept hempty (hreached before)

namespace Sample

/-- The text of an account. -/
def account (b : UInt8) : Bytes := 0 :: List.replicate 20 b

/-- A contract, and its text. -/
def contract : AccAddress := ⟨List.replicate 32 3, by simp, by simp⟩

def contractText : Bytes := 0 :: contract.bytes

/-- A keeper whose authority is the account `7`. -/
def keeper : Keeper := ⟨Bech32Text.tagged.toBech32, account 7⟩

/-- The contract is of the account `1`, who also is its admin. -/
def contracts : Wasm.Contracts := fun c => if c = contract then some ⟨account 1, account 1⟩ else none

theorem contracts_created : Created keeper contracts := by
  intro c info h
  unfold contracts at h
  split_ifs at h with hc
  cases h
  subst hc
  decide +kernel

/-- The admin registers the contract. -/
def registration : Msg := .registerStaking (account 1) contractText

/-- The admin of the contract becomes the account `2`. -/
def handover : Msg := .updateAdmin .default .instantiate (account 1) contractText (account 2)

/-- The contract has no admin any more. -/
def renunciation : Msg := .clearAdmin .default .instantiate (account 1) contractText

end Sample

open Sample in
/-- The admin registers its contract and gives up being admin. -/
theorem renounced_unstuck :
    isContractRegistered (run keeper.step (start contracts) [registration, renunciation]).store Hook.staking.keyPrefix
      contract = true ∧
    Unstuck keeper (run keeper.step (start contracts) [registration, renunciation]) := by
  exact ⟨by decide +kernel, (unstuck_iff keeper rfl contracts contracts_created [registration, renunciation]).mpr
    ⟨id, id, trivial⟩ _ List.prefix_rfl⟩

open Sample in
/-- The admin registers its contract and hands it to another, and nobody can remove it. -/
theorem handed_over_stuck :
    isContractRegistered (run keeper.step (start contracts) [registration, handover]).store Hook.staking.keyPrefix
      contract = true ∧
    ¬ Unstuck keeper (run keeper.step (start contracts) [registration, handover]) := by
  have hregistered : isContractRegistered (run keeper.step (start contracts) [registration, handover]).store
      Hook.staking.keyPrefix contract = true := by decide +kernel
  have hinfo : (run keeper.step (start contracts) [registration, handover]).contracts contract =
      some ⟨account 1, account 2⟩ := by decide +kernel
  refine ⟨hregistered, fun h => ?_⟩
  obtain ⟨-, sender, -, t, -, -, -, hremoved⟩ := h.removable .staking contract hregistered
  obtain ⟨-, c, hc, -, hauthorized, -⟩ := unregister_eq_ok.mp hremoved
  obtain rfl : contract = c := Option.some.inj hc
  obtain ⟨info, hinfo', hcreator, hadmin⟩ := isContractSenderAuthorized_eq_ok.mp hauthorized
  cases hinfo.symm.trans hinfo'
  have hsame : account 1 = account 2 :=
    (hcreator.resolve_left (by decide)).trans (hadmin.resolve_left (by decide)).symm
  exact absurd hsame (by decide)

end CwHooks
