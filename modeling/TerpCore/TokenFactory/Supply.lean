/-
  Who moves the supply of a factory denomination.
-/
import TerpCore.TokenFactory.Genesis

namespace TokenFactory

open Lib Outcome

variable {β : Type} {k : Keeper β}

/-! ## The bank -/

/-- `supply` is what the bank counts, by denomination: it moves by minting and burning, and not by any
transfer. -/
structure Keeper.Counts (k : Keeper β) (supply : β → Bytes → ℤ) : Prop where
  mint : ∀ {bank coins bank'}, k.mintCoins bank coins = some bank' →
    ∀ d, supply bank' d = supply bank d + amountOf coins d
  burn : ∀ {bank coins bank'}, k.burnCoins bank coins = some bank' →
    ∀ d, supply bank' d = supply bank d - amountOf coins d
  toAccount : ∀ {bank addr coins bank'}, k.sendCoinsFromModuleToAccount bank addr coins = some bank' →
    ∀ d, supply bank' d = supply bank d
  toModule : ∀ {bank addr coins bank'}, k.sendCoinsFromAccountToModule bank addr coins = some bank' →
    ∀ d, supply bank' d = supply bank d
  send : ∀ {bank sender recipient coins bank'}, k.sendCoins bank sender recipient coins = some bank' →
    ∀ d, supply bank' d = supply bank d
  fund : ∀ {bank fee addr bank'}, k.fundCommunityPool bank fee addr = some bank' →
    ∀ d, supply bank' d = supply bank d

variable {bank bank' : β} {amount : Coin} {supply : β → Bytes → ℤ} {s s' : State β} {msg : Msg}

theorem mintTo_eq_ok {mintTo : Bytes} (h : k.mintTo bank amount mintTo = .ok bank') : ∃ coins minted addr,
      newCoins amount = some coins ∧ k.mintCoins bank coins = some minted ∧
      k.codec.accAddressFromBech32 mintTo = some addr ∧ k.blockedAddr addr = false ∧
      k.sendCoinsFromModuleToAccount minted addr coins = some bank' := by
  simp only [Keeper.mintTo, bind_eq_ok, ofOption_eq_ok, demand_eq_ok, require_eq_ok, Bool.not_eq_true'] at h
  obtain ⟨_, -, coins, hcoins, minted, hmint, addr, haddr, -, hblocked, hsend⟩ := h
  exact ⟨coins, minted, addr, hcoins, hmint, haddr, hblocked, hsend⟩

theorem burnFrom_eq_ok {burnFrom : Bytes} (h : k.burnFrom bank amount burnFrom = .ok bank') : ∃ coins taken addr,
      newCoins amount = some coins ∧ k.codec.accAddressFromBech32 burnFrom = some addr ∧
      k.blockedAddr addr = false ∧ k.sendCoinsFromAccountToModule bank addr coins = some taken ∧
      k.burnCoins taken coins = some bank' := by
  simp only [Keeper.burnFrom, bind_eq_ok, ofOption_eq_ok, demand_eq_ok, require_eq_ok, Bool.not_eq_true'] at h
  obtain ⟨_, -, addr, haddr, -, hblocked, coins, hcoins, taken, hsend, hburn⟩ := h
  exact ⟨coins, taken, addr, hcoins, haddr, hblocked, hsend, hburn⟩

theorem forceTransfer_eq_ok {fromAddr toAddr : Bytes}
    (h : k.forceTransfer bank amount fromAddr toAddr = .ok bank') : ∃ coins sender recipient,
      newCoins amount = some coins ∧ k.codec.accAddressFromBech32 fromAddr = some sender ∧
      k.codec.accAddressFromBech32 toAddr = some recipient ∧ k.blockedAddr recipient = false ∧
      k.sendCoins bank sender recipient coins = some bank' := by
  simp only [Keeper.forceTransfer, bind_eq_ok, ofOption_eq_ok, demand_eq_ok, require_eq_ok, Bool.not_eq_true'] at h
  obtain ⟨_, -, sender, hsender, recipient, hrecipient, -, hblocked, coins, hcoins, hsend⟩ := h
  exact ⟨coins, sender, recipient, hcoins, hsender, hrecipient, hblocked, hsend⟩

/-! ## Supply -/

def Keeper.minted (k : Keeper β) (d : Bytes) (s : State β) (msg : Msg) : ℤ :=
  match msg with
  | .mint _ amount _ => if (k.handle s msg).isOk then amount.of d else 0
  | _ => 0

def Keeper.burned (k : Keeper β) (d : Bytes) (s : State β) (msg : Msg) : ℤ :=
  match msg with
  | .burn _ amount _ => if (k.handle s msg).isOk then amount.of d else 0
  | _ => 0

theorem Took.supply_eq (hbank : k.Counts supply) (hok : k.handle s msg = .ok s') (h : Took k s msg s') (d : Bytes) :
    supply s'.bank d = supply s.bank d + (k.minted d s msg + - k.burned d s msg) := by
  have hisOk : (k.handle s msg).isOk = true := by rw [hok]; rfl
  cases h with
  | @createDenom sender subdenom addr bank hslash hvalid haddr hnew hpaid =>
    have hsame : supply bank d = supply s.bank d := by
      rcases hpaid with rfl | ⟨fee, hfund⟩
      · rfl
      · exact hbank.fund hfund d
    simpa [Keeper.minted, Keeper.burned, State.withDenom] using hsame
  | mint hadmin hmint =>
    obtain ⟨coins, minted, addr, hcoins, hmint, -, -, hsend⟩ := mintTo_eq_ok hmint
    simp only [Keeper.minted, Keeper.burned, hisOk, if_true]
    rw [hbank.toAccount hsend, hbank.mint hmint, amountOf_newCoins hcoins, neg_zero, add_zero]
  | burn hadmin hburn =>
    obtain ⟨coins, taken, addr, hcoins, -, -, hsend, hburn⟩ := burnFrom_eq_ok hburn
    simp only [Keeper.minted, Keeper.burned, hisOk, if_true]
    rw [hbank.burn hburn, hbank.toModule hsend, amountOf_newCoins hcoins, zero_add, sub_eq_add_neg]
  | forceTransfer hadmin htransfer =>
    obtain ⟨coins, sender, recipient, -, -, -, -, hsend⟩ := forceTransfer_eq_ok htransfer
    simpa [Keeper.minted, Keeper.burned] using hbank.send hsend d
  | changeAdmin => simp [Keeper.minted, Keeper.burned, State.withAdmin]
  | setDenomMetadata | updateParams => simp [Keeper.minted, Keeper.burned]

theorem step_supply (hbank : k.Counts supply) (hsender : msg.sender ≠ []) (d : Bytes) :
    supply (k.step s msg).bank d = supply s.bank d + (k.minted d s msg + - k.burned d s msg) := by
  -- a message that fails mints and burns nothing
  have hfails : (k.handle s msg).isOk = false → k.minted d s msg + - k.burned d s msg = 0 := by
    intro hnot
    cases msg <;> simp [Keeper.minted, Keeper.burned, hnot]
  unfold Keeper.step
  rcases h : k.handle s msg with s' | e | _
  · exact (handle_took hsender h).supply_eq hbank h d
  · rw [hfails (by rw [h]; rfl), add_zero]
    rfl
  · rw [hfails (by rw [h]; rfl), add_zero]
    rfl

theorem run_supply (hbank : k.Counts supply) (hs : Consistent k s) {msgs : List Msg}
    (hsenders : ∀ msg ∈ msgs, msg.sender ≠ []) (d : Bytes) :
    supply (run k.step s msgs).bank d = supply s.bank d + gathered k.step (k.minted d) s msgs -
      gathered k.step (k.burned d) s msgs := by
  have hrun : supply (run k.step s msgs).bank d =
      supply s.bank d + gathered k.step (fun s msg => k.minted d s msg + - k.burned d s msg) s msgs :=
    run_gathered (I := Consistent k) (f := fun s => supply s.bank d)
      (fun _ _ ht hmsg => step_consistent ht hmsg) (fun t msg _ hmsg => step_supply hbank hmsg d) s msgs
      (Along.of_mem hsenders s) hs
  rw [hrun, gathered_add, gathered_neg]
  ring

/-! ## Authority -/

/-- The denomination that a message acts on; it has to exist. -/
def Msg.target : Msg → Option Bytes
  | .mint _ amount _ | .burn _ amount _ | .forceTransfer _ amount _ _ => some amount.denom
  | .changeAdmin _ denom _ => some denom
  | .setDenomMetadata _ metadata => some metadata.base
  | .createDenom _ _ | .updateParams _ _ => none

/-- The records before a message agree, and if it succeeds it is one that may. -/
structure Governed (k : Keeper β) (s : State β) (msg : Msg) : Prop where
  /-- a denomination has an admin row if and only if it stands in an index, and then has metadata -/
  records : ∀ d, ((recorded s.store d).isSome ↔ ∃ c, s.store.get (creatorKey c d) = some (.denom d)) ∧
    ((recorded s.store d).isSome → (s.metadata.get d).isSome)
  /-- the sender is the recorded admin, and in particular there is one -/
  admin : ∀ s', k.handle s msg = .ok s' → ∀ d, msg.target = some d → recorded s.store d = some ⟨msg.sender⟩
  /-- an admin is replaced by a `ChangeAdmin` -/
  replaced : ∀ s', k.handle s msg = .ok s' → ∀ d, (recorded s.store d).isSome →
    recorded s'.store d ≠ recorded s.store d → ∃ newAdmin, msg = .changeAdmin msg.sender d newAdmin
  /-- a denomination is created by its creator -/
  created : ∀ s', k.handle s msg = .ok s' → ∀ c sub, slash ∉ c → recorded s.store (factoryDenom c sub) = none →
    (recorded s'.store (factoryDenom c sub)).isSome → msg = .createDenom c sub

theorem Consistent.isSome_iff (h : Consistent k s) (d : Bytes) :
    (recorded s.store d).isSome ↔ ∃ c, s.store.get (creatorKey c d) = some (.denom d) := by
  constructor
  · exact h.indexed
  · rintro ⟨c, hc⟩
    obtain ⟨creator, d', -, hd', hrecorded⟩ := h.index hc
    cases hd'
    exact hrecorded

theorem Took.admin (h : Took k s msg s') {d : Bytes} (hd : msg.target = some d) :
    recorded s.store d = some ⟨msg.sender⟩ := by
  cases h with
  | createDenom => cases hd
  | mint hadmin => exact Option.some.inj hd ▸ hadmin
  | burn hadmin => exact Option.some.inj hd ▸ hadmin
  | forceTransfer hadmin => exact Option.some.inj hd ▸ hadmin
  | changeAdmin hadmin => exact Option.some.inj hd ▸ hadmin
  | setDenomMetadata hadmin => exact Option.some.inj hd ▸ hadmin
  | updateParams => cases hd

theorem Took.recorded_ne (h : Took k s msg s') (hs : Consistent k s) {d : Bytes}
    (hne : recorded s'.store d ≠ recorded s.store d) :
    (∃ newAdmin, msg = .changeAdmin msg.sender d newAdmin ∧ recorded s.store d = some ⟨msg.sender⟩) ∨
      ∃ c sub, slash ∉ c ∧ d = factoryDenom c sub ∧ msg = .createDenom c sub ∧ recorded s.store d = none := by
  cases h with
  | @createDenom sender subdenom addr bank hslash hvalid haddr hnew hpaid =>
    rw [recorded_withDenom] at hne
    split at hne
    · next heq =>
        subst heq
        refine .inr ⟨sender, subdenom, hslash, rfl, rfl, ?_⟩
        rw [← Option.not_isSome_iff_eq_none]
        intro hrecorded
        have hmetadata := hs.metadata hrecorded
        simp [hnew] at hmetadata
    · exact absurd rfl hne
  | mint | burn | forceTransfer => exact absurd rfl hne
  | @changeAdmin sender denom newAdmin hadmin hvalid =>
    rw [State.withAdmin, recorded_set_authority] at hne
    split at hne
    · next heq =>
        subst heq
        exact .inl ⟨newAdmin, rfl, hadmin⟩
    · exact absurd rfl hne
  | setDenomMetadata => exact absurd rfl hne
  | updateParams =>
    rw [recorded_set_paramsKey] at hne
    exact absurd rfl hne

theorem Consistent.governed (hs : Consistent k s) (hsender : msg.sender ≠ []) : Governed k s msg := by
  refine ⟨fun d => ⟨hs.isSome_iff d, hs.metadata⟩, ?_, ?_, ?_⟩
  · intro s' h d hd
    exact (handle_took hsender h).admin hd
  · intro s' h d hold hne
    rcases (handle_took hsender h).recorded_ne hs hne with ⟨newAdmin, hmsg, -⟩ | ⟨c, sub, -, -, -, hnone⟩
    · exact ⟨newAdmin, hmsg⟩
    · simp [hnone] at hold
  · intro s' h c sub hc hnone hsome
    have hne : recorded s'.store (factoryDenom c sub) ≠ recorded s.store (factoryDenom c sub) := by
      intro heq
      simp [heq, hnone] at hsome
    rcases (handle_took hsender h).recorded_ne hs hne with ⟨newAdmin, -, hold⟩ | ⟨c', sub', hc', hd, hmsg, -⟩
    · simp [hnone] at hold
    · obtain ⟨rfl, rfl⟩ := factoryDenom_inj hc hc' hd
      exact hmsg

/-! ## From genesis on -/

/-- **Only the admin moves supply**: any accepted genesis is taken over, and over any messages, none of the empty
account, supplies move by what is minted and burned and every message that succeeds is governed. -/
theorem only_admin_moves_supply (k : Keeper β) (supply : β → Bytes → ℤ) (hbank : k.Counts supply)
    (metadata : List Metadata) (bank : β) (gs : GenesisState) (hgs : gs.validate k.codec = .ok ()) :
    ∃ s₀, k.initGenesis (.fresh metadata bank) gs = .ok s₀ ∧
      (∀ d, (recorded s₀.store d).isSome ↔ d ∈ gs.factoryDenoms.map GenesisDenom.denom) ∧
      ∀ msgs : List Msg, (∀ msg ∈ msgs, msg.sender ≠ []) →
        (∀ d, supply (run k.step s₀ msgs).bank d = supply bank d + gathered k.step (k.minted d) s₀ msgs -
          gathered k.step (k.burned d) s₀ msgs) ∧
        Along k.step (Governed k) s₀ msgs := by
  obtain ⟨hparams, hdenoms⟩ := GenesisState.valid_of_validate hgs
  have hinit := initGenesis_eq (.fresh metadata bank) hparams hdenoms
  have hs₀ := initGenesis_consistent hparams hdenoms hinit
  refine ⟨_, hinit, ?_, fun msgs hsenders => ⟨?_, ?_⟩⟩
  · intro d
    rw [isSome_recorded_setRows, recorded_set_paramsKey]
    exact or_iff_left (by simp [recorded, State.fresh])
  · exact run_supply hbank hs₀ hsenders
  · exact along_of_invariant (fun _ _ ht hmsg => step_consistent ht hmsg)
      (fun t msg ht hmsg => ht.governed hmsg) _ msgs (Along.of_mem hsenders _) hs₀

/-! ## A chain with a bank -/

namespace Sample

/-- Addresses that are written as they are. -/
def codec : Bech32 := ⟨AccAddress.bytes, AccAddress.ofVerified, AccAddress.ofVerified_self⟩

structure Bank where
  balance : AccAddress → Bytes → ℤ
  supply : Bytes → ℤ

def moduleAddress : AccAddress := ⟨ascii "tokenfactory-module-", by decide, by decide⟩

def poolAddress : AccAddress := ⟨ascii "distribution-module-", by decide, by decide⟩

def Bank.holds (b : Bank) (addr : AccAddress) (coins : List Coin) : Bool :=
  coins.all fun c => c.amount ≤ b.balance addr c.denom

def Bank.credit (b : Bank) (addr : AccAddress) (coins : List Coin) : AccAddress → Bytes → ℤ :=
  fun a d => b.balance a d + if a = addr then amountOf coins d else 0

def Bank.debit (b : Bank) (addr : AccAddress) (coins : List Coin) : AccAddress → Bytes → ℤ :=
  fun a d => b.balance a d - if a = addr then amountOf coins d else 0

def Bank.send (b : Bank) (sender recipient : AccAddress) (coins : List Coin) : Option Bank :=
  if b.holds sender coins then some ⟨Bank.credit ⟨b.debit sender coins, b.supply⟩ recipient coins, b.supply⟩
  else none

def Bank.burn (b : Bank) (coins : List Coin) : Option Bank :=
  if b.holds moduleAddress coins then
    some ⟨b.debit moduleAddress coins, fun d => b.supply d - amountOf coins d⟩
  else none

def keeper : Keeper Bank where
  codec := codec
  enabledCapabilities := []
  authority := []
  blockedAddr addr := addr == poolAddress
  validMetadata m := m.base != []
  mintCoins b coins := some ⟨b.credit moduleAddress coins, fun d => b.supply d + amountOf coins d⟩
  burnCoins := Bank.burn
  sendCoinsFromModuleToAccount b addr := b.send moduleAddress addr
  sendCoinsFromAccountToModule b addr := b.send addr moduleAddress
  sendCoins := Bank.send
  fundCommunityPool b fee addr := b.send addr poolAddress fee

theorem supply_of_send {b b' : Bank} {sender recipient : AccAddress} {coins : List Coin}
    (h : b.send sender recipient coins = some b') (d : Bytes) : b'.supply d = b.supply d := by
  unfold Bank.send at h
  split at h
  · rw [← Option.some.inj h]
  · cases h

theorem counts : keeper.Counts Bank.supply where
  mint h d := by rw [← Option.some.inj h]
  burn {bank coins bank'} h d := by
    have h : bank.burn coins = some bank' := h
    unfold Bank.burn at h
    split at h
    · rw [← Option.some.inj h]
    · cases h
  toAccount h := supply_of_send h
  toModule h := supply_of_send h
  send h := supply_of_send h
  fund h := supply_of_send h

def alice : Bytes := ascii "alice-of-twenty-byte"

def bob : Bytes := ascii "bob-of-twenty-bytes-"

def gold : Bytes := factoryDenom alice (ascii "gold")

def silver : Bytes := factoryDenom bob (ascii "silver")

/-- A chain on which creation is free and bob's silver is alice's. -/
def genesis : GenesisState := ⟨.zero, [⟨silver, ⟨alice⟩⟩]⟩

def noCoins : Bank := ⟨fun _ _ => 0, fun _ => 0⟩

def start : State Bank := .fresh [] noCoins

def chain : State Bank := (keeper.initGenesis start genesis).orElse start

/-- alice creates gold and mints some for bob, who may not; then the admin changes. -/
def msgs : List Msg :=
  [.createDenom alice (ascii "gold"), .mint alice ⟨gold, 100⟩ bob, .mint bob ⟨gold, 7⟩ bob,
    .burn alice ⟨gold, 30⟩ bob, .changeAdmin alice gold bob, .mint alice ⟨gold, 9⟩ alice,
    .mint bob ⟨gold, 5⟩ [], .mint alice ⟨silver, 2⟩ []]

end Sample

open Sample in
/-- The gold that is left, and the silver. -/
theorem gold_and_silver_counted :
    genesis.validate codec = .ok () ∧ Along keeper.step (Governed keeper) chain msgs ∧
      (run keeper.step chain msgs).bank.supply gold = 75 ∧ (run keeper.step chain msgs).bank.supply silver = 2 := by
  have hvalid : genesis.validate codec = .ok () := by decide +kernel
  obtain ⟨s₀, hinit, -, hrun⟩ := only_admin_moves_supply keeper Bank.supply counts [] noCoins genesis hvalid
  have hchain : chain = s₀ := by rw [chain, start, hinit]; rfl
  refine ⟨hvalid, hchain ▸ (hrun msgs (by decide +kernel)).2, by decide +kernel, by decide +kernel⟩

/-! ## Denominations without an admin -/

section renounced

variable {d : Bytes} (hd : recorded s.store d = some ⟨[]⟩) (hsender : msg.sender ≠ [])
include hd hsender

theorem handle_renounced (htarget : msg.target = some d) : (k.handle s msg).isOk = false := by
  by_contra hok
  obtain ⟨s', h⟩ := isOk_iff.mp (eq_true_of_ne_false hok)
  have hadmin := (handle_took hsender h).admin htarget
  rw [hd] at hadmin
  exact hsender (congrArg DenomAuthorityMetadata.admin (Option.some.inj hadmin)).symm

theorem minted_renounced : k.minted d s msg + - k.burned d s msg = 0 := by
  have hfails := handle_renounced (k := k) hd hsender
  cases msg with
  | mint | burn => grind [Keeper.minted, Keeper.burned, Coin.of, Msg.target]
  | _ => simp [Keeper.minted, Keeper.burned]

theorem step_renounced (hs : Consistent k s) : recorded (k.step s msg).store d = some ⟨[]⟩ := by
  refine orElse_elim (P := fun t : State β => recorded t.store d = some ⟨[]⟩) hd fun s' h => ?_
  by_contra hne
  rw [← hd] at hne
  rcases (handle_took hsender h).recorded_ne hs hne with ⟨_, -, hadmin⟩ | ⟨_, _, -, -, -, hnone⟩
  · rw [hd] at hadmin
    exact hsender (congrArg DenomAuthorityMetadata.admin (Option.some.inj hadmin)).symm
  · simp [hd] at hnone

end renounced

/-- **Frozen for good**: a denomination with the empty admin keeps it, no message that acts on it succeeds, and its
supply stays. -/
theorem renounced_frozen (k : Keeper β) (supply : β → Bytes → ℤ) (hbank : k.Counts supply) (metadata : List Metadata)
    (bank : β) (gs : GenesisState) (hgs : gs.validate k.codec = .ok ()) (s₀ : State β)
    (hinit : k.initGenesis (.fresh metadata bank) gs = .ok s₀) (before after : List Msg)
    (hsenders : ∀ msg ∈ before ++ after, msg.sender ≠ []) (d : Bytes)
    (hd : recorded (run k.step s₀ before).store d = some ⟨[]⟩) :
    let s := run k.step s₀ before
    recorded (run k.step s after).store d = some ⟨[]⟩ ∧ supply (run k.step s after).bank d = supply s.bank d ∧
      Along k.step (fun t msg => msg.target = some d → (k.handle t msg).isOk = false) s after := by
  intro s
  obtain ⟨hbefore, hafter⟩ := List.forall_mem_append.mp hsenders
  obtain ⟨hparams, hdenoms⟩ := GenesisState.valid_of_validate hgs
  have hs : Consistent k s := run_consistent (initGenesis_consistent hparams hdenoms hinit) hbefore
  let I : State β → Prop := fun t =>
    Consistent k t ∧ recorded t.store d = some ⟨[]⟩ ∧ supply t.bank d = supply s.bank d
  have hstep : ∀ t msg, I t → msg.sender ≠ [] → I (k.step t msg) := by
    rintro t msg ⟨ht, hd, hsupply⟩ hmsg
    refine ⟨step_consistent ht hmsg, step_renounced hd hmsg ht, ?_⟩
    rw [step_supply hbank hmsg, minted_renounced hd hmsg, add_zero, hsupply]
  have halong : Along k.step (fun _ msg => msg.sender ≠ []) s after := Along.of_mem hafter s
  obtain ⟨-, hrecorded, hsupply⟩ := run_invariant hstep s after halong ⟨hs, hd, rfl⟩
  exact ⟨hrecorded, hsupply,
    along_of_invariant hstep (fun t msg ht hmsg => handle_renounced ht.2.1 hmsg) s after halong ⟨hs, hd, rfl⟩⟩

open Sample in
theorem silver_without_admin :
    let s := (keeper.initGenesis start ⟨.zero, [⟨silver, ⟨[]⟩⟩]⟩).orElse start
    recorded s.store silver = some ⟨[]⟩ ∧ (run keeper.step s msgs).bank.supply silver = s.bank.supply silver :=
  have hd : recorded ((keeper.initGenesis start ⟨.zero, [⟨silver, ⟨[]⟩⟩]⟩).orElse start).store silver = some ⟨[]⟩ := by
    decide +kernel
  ⟨hd, (renounced_frozen keeper Bank.supply counts [] noCoins ⟨.zero, [⟨silver, ⟨[]⟩⟩]⟩ (by decide +kernel) _ (by rfl)
    [] msgs (by decide +kernel) silver hd).2.1⟩

end TokenFactory
