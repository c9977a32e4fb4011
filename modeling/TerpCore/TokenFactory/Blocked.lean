/-
  What an admin can do to blocked accounts.
-/
import TerpCore.Lib.Ledger
import TerpCore.TokenFactory.Supply

namespace TokenFactory

open Lib Outcome

variable {β : Type} {k : Keeper β} {moduleAddr : AccAddress} {balance : β → AccAddress → Bytes → ℤ}

/-- `balance` is what the bank keeps for each account: the module's account mints and burns, and a transfer moves
coins. -/
structure Keeper.Keeps (k : Keeper β) (moduleAddr : AccAddress) (balance : β → AccAddress → Bytes → ℤ) : Prop where
  mint : ∀ {bank coins bank'}, k.mintCoins bank coins = some bank' → ∀ a d, a ≠ moduleAddr →
    balance bank' a d = balance bank a d
  burn : ∀ {bank coins bank'}, k.burnCoins bank coins = some bank' → ∀ a d, a ≠ moduleAddr →
    balance bank' a d = balance bank a d
  toAccount : ∀ {bank addr coins bank'}, k.sendCoinsFromModuleToAccount bank addr coins = some bank' →
    Moved (balance bank) (balance bank') moduleAddr addr coins
  toModule : ∀ {bank addr coins bank'}, k.sendCoinsFromAccountToModule bank addr coins = some bank' →
    Moved (balance bank) (balance bank') addr moduleAddr coins
  send : ∀ {bank sender recipient coins bank'}, k.sendCoins bank sender recipient coins = some bank' →
    Moved (balance bank) (balance bank') sender recipient coins

variable {a : AccAddress} {bank bank' : β} {amount : Coin}

theorem ne_of_blocked {b : AccAddress} (ha : k.blockedAddr a = true) (hb : k.blockedAddr b = false) : a ≠ b := by
  rintro rfl
  simp [ha] at hb

/-! ## The three actions -/

theorem mintTo_keeps (hbank : k.Keeps moduleAddr balance) {mintTo : Bytes}
    (h : k.mintTo bank amount mintTo = .ok bank') (ha : k.blockedAddr a = true) (hne : a ≠ moduleAddr)
    (d : Bytes) : balance bank' a d = balance bank a d := by
  obtain ⟨coins, minted, addr, -, hmint, -, hfree, hsend⟩ := mintTo_eq_ok h
  rw [(hbank.toAccount hsend).eq_of_ne hne (ne_of_blocked ha hfree), hbank.mint hmint a d hne]

theorem burnFrom_keeps (hbank : k.Keeps moduleAddr balance) {burnFrom : Bytes}
    (h : k.burnFrom bank amount burnFrom = .ok bank') (ha : k.blockedAddr a = true) (hne : a ≠ moduleAddr)
    (d : Bytes) : balance bank' a d = balance bank a d := by
  obtain ⟨coins, taken, addr, -, -, hfree, hsend, hburn⟩ := burnFrom_eq_ok h
  rw [hbank.burn hburn a d hne, (hbank.toModule hsend).eq_of_ne (ne_of_blocked ha hfree) hne]

theorem forceTransfer_balance (hbank : k.Keeps moduleAddr balance) {fromAddr toAddr : Bytes}
    (h : k.forceTransfer bank amount fromAddr toAddr = .ok bank') (ha : k.blockedAddr a = true)
    (d : Bytes) : balance bank' a d =
      balance bank a d - if k.codec.accAddressFromBech32 fromAddr = some a then amount.of d else 0 := by
  obtain ⟨coins, sender, recipient, hcoins, hsender, -, hfree, hsend⟩ := forceTransfer_eq_ok h
  rw [hbank.send hsend a d, if_neg (ne_of_blocked ha hfree), add_zero, hsender, amountOf_newCoins hcoins]
  simp only [Option.some.injEq, eq_comm]

/-! ## The messages -/

/-- The messages by which an admin acts on the bank. -/
def Msg.actsOnBank : Msg → Bool
  | .mint .. | .burn .. | .forceTransfer .. => true
  | _ => false

/-- The blocked accounts, but for the account of the module. -/
def Keeper.Blocked (k : Keeper β) (moduleAddr a : AccAddress) : Prop :=
  k.blockedAddr a = true ∧ a ≠ moduleAddr

/-- A forced transfer of something out of a blocked account. -/
def Keeper.TakesFromBlocked (k : Keeper β) (moduleAddr : AccAddress) : Msg → Prop
  | .forceTransfer _ amount fromAddr _ => amount.amount ≠ 0 ∧
      ∃ a, k.codec.accAddressFromBech32 fromAddr = some a ∧ k.Blocked moduleAddr a
  | _ => False

theorem forceTransfer_keeps_iff (hbank : k.Keeps moduleAddr balance) {fromAddr toAddr : Bytes}
    (h : k.forceTransfer bank amount fromAddr toAddr = .ok bank') :
    (∀ a, k.Blocked moduleAddr a → ∀ d, balance bank' a d = balance bank a d) ↔
      ¬ (amount.amount ≠ 0 ∧ ∃ a, k.codec.accAddressFromBech32 fromAddr = some a ∧ k.Blocked moduleAddr a) := by
  constructor
  · rintro hkept ⟨hamount, a, hfrom, ha⟩
    have hsame := hkept a ha amount.denom
    rw [forceTransfer_balance hbank h ha.1, if_pos hfrom, Coin.of, if_pos rfl] at hsame
    omega
  · intro hnot a ha d
    rw [forceTransfer_balance hbank h ha.1]
    split
    · next hfrom =>
        have hzero : amount.amount = 0 := by
          by_contra hamount
          exact hnot ⟨hamount, a, hfrom, ha⟩
        rw [Coin.of, hzero, ite_self, sub_zero]
    · rw [sub_zero]

/-- **What a token admin can do to blocked accounts**: a mint, burn or forced transfer that succeeds leaves the
balances of blocked accounts, but the module's own, as they were, unless it forces a nonzero amount out of one of
them. -/
theorem blocked_kept_iff (k : Keeper β) (moduleAddr : AccAddress) (balance : β → AccAddress → Bytes → ℤ)
    (hbank : k.Keeps moduleAddr balance) (s s' : State β) (msg : Msg) (hmsg : msg.actsOnBank = true)
    (h : k.handle s msg = .ok s') :
    (∀ a, k.Blocked moduleAddr a → ∀ d, balance s'.bank a d = balance s.bank a d) ↔
      ¬ k.TakesFromBlocked moduleAddr msg := by
  cases msg with
  | mint =>
    obtain ⟨_, -, h⟩ := bind_eq_ok.mp h
    obtain ⟨_, -, h⟩ := bind_eq_ok.mp h
    obtain ⟨bank, hmint, h⟩ := bind_eq_ok.mp h
    cases h
    exact iff_of_true (fun a ha d => mintTo_keeps hbank hmint ha.1 ha.2 d) id
  | burn =>
    obtain ⟨_, -, h⟩ := bind_eq_ok.mp h
    obtain ⟨_, -, h⟩ := bind_eq_ok.mp h
    obtain ⟨bank, hburn, h⟩ := bind_eq_ok.mp h
    cases h
    exact iff_of_true (fun a ha d => burnFrom_keeps hbank hburn ha.1 ha.2 d) id
  | forceTransfer =>
    obtain ⟨_, -, h⟩ := bind_eq_ok.mp h
    obtain ⟨_, -, h⟩ := bind_eq_ok.mp h
    obtain ⟨bank, htransfer, h⟩ := bind_eq_ok.mp h
    cases h
    exact forceTransfer_keeps_iff hbank htransfer
  | _ => cases hmsg

/-! ## The community pool -/

namespace Sample

theorem moved_of_send {b b' : Bank} {sender recipient : AccAddress} {coins : List Coin}
    (h : b.send sender recipient coins = some b') : Moved b.balance b'.balance sender recipient coins := by
  unfold Bank.send at h
  split at h
  · rw [← Option.some.inj h]
    intro a d
    simp only [Bank.credit, Bank.debit]
    ring
  · cases h

theorem keeps : keeper.Keeps moduleAddress Bank.balance where
  mint h a d hne := by
    rw [← Option.some.inj h]
    simp [Bank.credit, hne]
  burn {bank coins bank'} h a d hne := by
    have h : bank.burn coins = some bank' := h
    unfold Bank.burn at h
    split at h
    · rw [← Option.some.inj h]
      simp [Bank.debit, hne]
    · cases h
  toAccount h := moved_of_send h
  toModule h := moved_of_send h
  send h := moved_of_send h

/-- alice has created gold and minted fifty of it. -/
def minted : State Bank :=
  run keeper.step chain [.createDenom alice (ascii "gold"), .mint alice ⟨gold, 50⟩ []]

/-- They are given to the community pool. -/
def funded : State Bank :=
  { minted with
    bank := (keeper.fundCommunityPool minted.bank [⟨gold, 50⟩] ⟨alice, by decide, by decide⟩).getD minted.bank }

/-- The admin takes them out again. -/
def drain : Msg := .forceTransfer alice ⟨gold, 50⟩ poolAddress.bytes alice

end Sample

open Sample in
/-- Minting to bob keeps the pool. -/
theorem pool_kept_by_mint : (∀ a, keeper.Blocked moduleAddress a → ∀ d,
      (keeper.step funded (.mint alice ⟨gold, 7⟩ bob)).bank.balance a d = funded.bank.balance a d) ∧
      (keeper.step funded (.mint alice ⟨gold, 7⟩ bob)).bank.balance ⟨bob, by decide, by decide⟩ gold = 7 := by
  refine ⟨?_, by decide +kernel⟩
  have hok : (keeper.handle funded (.mint alice ⟨gold, 7⟩ bob)).isOk = true := by decide +kernel
  rcases h : keeper.handle funded (.mint alice ⟨gold, 7⟩ bob) with s' | e | _
  · rw [Keeper.step, h]
    exact (blocked_kept_iff keeper moduleAddress Bank.balance keeps funded s' _ rfl h).mpr id
  · rw [h] at hok
    cases hok
  · rw [h] at hok
    cases hok

open Sample in
/-- The community pool, which is blocked, loses its gold to the admin. -/
theorem pool_drained :
    keeper.Blocked moduleAddress poolAddress ∧ drain.actsOnBank = true ∧
      (keeper.handle funded drain).isOk = true ∧ funded.bank.balance poolAddress gold = 50 ∧
      (keeper.step funded drain).bank.balance poolAddress gold = 0 := by
  refine ⟨⟨by decide, by decide⟩, rfl, by decide +kernel, by decide +kernel, by decide +kernel⟩

end TokenFactory
