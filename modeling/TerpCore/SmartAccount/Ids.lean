/-
  Ids of authenticators are not reused: in every run from a genesis whose ids are below its counter, an id that
  `AddAuthenticator` returns was never stored before.
-/
import TerpCore.SmartAccount.Atomicity
import TerpCore.SmartAccount.Genesis
import TerpCore.Lib.Run

namespace SmartAccount

open Lib KVStore List

variable {ρ : Type}

/-! ## Calls -/

inductive Change where
  | add (account authenticatorType config : Bytes)
  | remove (account : Bytes) (authenticatorId : UInt64)
  deriving DecidableEq

/-- A call of the keeper, with the rest of the context that it is made in. -/
structure Invocation (ρ : Type) where
  ctx : Context ρ
  change : Change

abbrev Context.rows (ctx : Context ρ) : KVStore Row := ctx.store.smartAccount

def Invocation.context (inv : Invocation ρ) (rows : KVStore Row) : Context ρ :=
  { inv.ctx with store := { inv.ctx.store with smartAccount := rows } }

def Invocation.isAdd (inv : Invocation ρ) : Bool :=
  match inv.change with
  | .add .. => true
  | .remove .. => false

namespace Keeper

variable (k : Keeper ρ)

def invoke (rows : KVStore Row) (inv : Invocation ρ) : KVStore Row :=
  match inv.change with
  | .add account type config => (k.addAuthenticator account type config (inv.context rows)).2.rows
  | .remove account id => (k.removeAuthenticator account id (inv.context rows)).2.rows

def Returns (rows : KVStore Row) (inv : Invocation ρ) (id : UInt64) : Prop :=
  match inv.change with
  | .add account type config => (k.addAuthenticator account type config (inv.context rows)).1 = .ok id
  | .remove .. => False

def Stored (rows : KVStore Row) (id : UInt64) : Prop := ∃ account, rows.has (k.keyAccountId account id) = true

/-- Each id that a call of the run returns was stored in no state up to that call. -/
def NeverReused (rows : KVStore Row) (invs : List (Invocation ρ)) : Prop :=
  ∀ before inv after, invs = before ++ inv :: after → ∀ id, k.Returns (run k.invoke rows before) inv id →
    ∀ earlier, earlier <+: before → ¬ k.Stored (run k.invoke rows earlier) id

/-- No authenticator is new, and the counter is as it was. -/
structure AddsNothing (rows rows' : KVStore Row) : Prop where
  counter : rows'.get keyNextAccountAuthenticatorId = rows.get keyNextAccountAuthenticatorId
  stored : ∀ id, k.Stored rows' id → k.Stored rows id

/-- The callback of the authenticator that is added or removed adds nothing. -/
def Quiet (rows : KVStore Row) (inv : Invocation ρ) : Prop :=
  match inv.change with
  | .add account type config => ∀ impl, k.authenticatorManager type = some impl →
      ∀ id ctx, ctx.frame = (inv.context rows).frame →
        k.AddsNothing rows (impl.onAuthenticatorAdded account config id ctx).store.smartAccount
  | .remove account id => ∀ existing impl, rows.get (k.keyAccountId account id) = some (.authenticator existing) →
      k.authenticatorManager existing.type = some impl → ∀ ctx, ctx.frame = (inv.context rows).frame →
        k.AddsNothing rows (impl.onAuthenticatorRemoved account existing.config (decimal id) ctx).store.smartAccount

end Keeper

/-! ## Keys -/

theorem toNat_le_of_isDigit {c : Char} (h : c.isDigit = true) : c.toNat ≤ 57 := by
  simp only [Char.isDigit, Bool.and_eq_true, decide_eq_true_eq] at h
  exact UInt32.le_iff_toNat_le.mp h.2

theorem map_decimal (n : UInt64) : (decimal n).map (fun b => Char.ofNat b.toNat) = Nat.toDigits 10 n.toNat := by
  have hread : ∀ c ∈ Nat.toDigits 10 n.toNat, Char.ofNat (UInt8.ofNat c.toNat).toNat = id c := by
    intro c hc
    have hc57 := toNat_le_of_isDigit (Nat.isDigit_of_mem_toDigits (by omega) (by omega) hc)
    rw [UInt8.toNat_ofNat_of_lt' (show c.toNat < 256 by omega), Char.ofNat_toNat, id]
  rw [decimal, map_map]
  exact (map_congr_left hread).trans (map_id _)

theorem decimal_injective {m n : UInt64} (h : decimal m = decimal n) : m = n := by
  have hdigits : Nat.toDigits 10 m.toNat = Nat.toDigits 10 n.toNat := by
    rw [← map_decimal, ← map_decimal, h]
  have hnat := congrArg (fun ds => Nat.ofDigitChars 10 ds 0) hdigits
  exact UInt64.toNat_inj.mp (by simpa using hnat)

theorem separator_notMem_decimal (n : UInt64) : (124 : UInt8) ∉ decimal n := by
  intro h
  obtain ⟨c, hc, hbyte⟩ := mem_map.mp h
  have hc57 := toNat_le_of_isDigit (Nat.isDigit_of_mem_toDigits (by omega) (by omega) hc)
  have hnat := congrArg UInt8.toNat hbyte
  rw [UInt8.toNat_ofNat_of_lt' (show c.toNat < 256 by omega)] at hnat
  simp only [UInt8.reduceToNat] at hnat
  omega

namespace Keeper

variable {k : Keeper ρ}

theorem keyAccountId_eq (a : Bytes) (i : UInt64) :
    k.keyAccountId a i = ascii "[2]|" ++ k.accString a ++ 124 :: decimal i ++ [124] := by
  have hsep : ascii "|" = [124] := by decide
  have hhead : ascii "[2]|" = ascii "[2]" ++ [124] := by decide
  simp [keyAccountId, buildKey, keySeparator, hsep, hhead]

theorem keyAccountId_inj {a b : Bytes} {i j : UInt64} (h : k.keyAccountId a i = k.keyAccountId b j) : i = j := by
  rw [keyAccountId_eq, keyAccountId_eq] at h
  exact decimal_injective (append_sep_inj_right (separator_notMem_decimal i) (separator_notMem_decimal j)
    (append_cancel_right h)).2

theorem keyAccountId_ne_counter (a : Bytes) (i : UInt64) : k.keyAccountId a i ≠ keyNextAccountAuthenticatorId := by
  intro h
  rw [keyAccountId_eq, show keyNextAccountAuthenticatorId = ascii "[1]|" by decide] at h
  have hhead := congrArg (fun bs : Bytes => bs[1]?) h
  simp [ascii] at hhead

theorem paramsKey_ne_counter : paramsKey ≠ keyNextAccountAuthenticatorId := by decide

theorem paramsKey_ne_keyAccountId (a : Bytes) (i : UInt64) : paramsKey ≠ k.keyAccountId a i := by
  intro h
  rw [keyAccountId_eq] at h
  have hhead := congrArg List.head? h
  simp [ascii, paramsKey] at hhead

end Keeper

/-! ## The counter is above all ids -/

namespace Keeper

variable {k : Keeper ρ} {n : ℕ} {rows rows' : KVStore Row}

/-- The counter stands at `n`, which is above all stored ids. -/
structure Issued (k : Keeper ρ) (n : ℕ) (rows : KVStore Row) : Prop where
  counter : rows.get keyNextAccountAuthenticatorId = some (.nextId (UInt64.ofNat n))
  below : ∀ id, k.Stored rows id → id.toNat < n

variable (h : Issued k n rows)

include h

theorem Issued.addsNothing (hrows : k.AddsNothing rows rows') : Issued k n rows' where
  counter := hrows.counter.trans h.counter
  below := fun id hid => h.below id (hrows.stored id hid)

theorem Issued.set_authenticator (account : Bytes) {id : UInt64} (hid : id.toNat < n)
    (row : Row) : Issued k n (rows.set (k.keyAccountId account id) row) where
  counter := by rw [get_set_of_ne _ _ (keyAccountId_ne_counter account id), h.counter]
  below := by
    rintro id' ⟨account', hstored⟩
    rw [has, get_set] at hstored
    split at hstored
    · rename_i hkey
      rwa [← keyAccountId_inj hkey]
    · exact h.below id' ⟨account', hstored⟩

theorem Issued.set_counter :
    Issued k (n + 1) (rows.set keyNextAccountAuthenticatorId (.nextId (UInt64.ofNat n + 1))) where
  counter := by rw [get_set_self, UInt64.ofNat_add]; rfl
  below := by
    rintro id ⟨account, hstored⟩
    rw [has, get_set_of_ne _ _ (keyAccountId_ne_counter account id).symm] at hstored
    exact (h.below id ⟨account, hstored⟩).trans (Nat.lt_succ_self n)

theorem Issued.delete (account : Bytes) (id : UInt64) : Issued k n (rows.delete (k.keyAccountId account id)) where
  counter := by rw [get_delete_of_ne _ (keyAccountId_ne_counter account id), h.counter]
  below := by
    rintro id' ⟨account', hstored⟩
    rw [has, get_delete] at hstored
    split at hstored
    · cases hstored
    · exact h.below id' ⟨account', hstored⟩

end Keeper

/-! ## Reading and writing rows -/

section rows

open Proc

variable {k : Keeper ρ} {ctx ctx' : Context ρ}

theorem rows_of_frame (h : ctx'.frame = ctx.frame) : ctx'.rows = ctx.rows :=
  congrArg (fun f => f.2.1.smartAccount) h

theorem getRow_eq_ok {key : Bytes} {row : Option Row} (h : k.get key ctx = (.ok row, ctx')) :
    row = ctx.rows.get key ∧ ctx'.frame = ctx.frame := by
  refine ⟨?_, (keeps_getRow k key).of_eq h⟩
  obtain ⟨c, _, hget, h₁⟩ := bind_eq_ok.mp h
  obtain ⟨hc, rfl⟩ := Prod.mk.inj hget
  obtain rfl : ctx = c := Exit.ok.inj hc
  obtain ⟨_, _, -, h₂⟩ := bind_eq_ok.mp h₁
  exact (pure_eq_ok.mp h₂).1.symm

theorem rows_set_cases (k : Keeper ρ) (key : Bytes) (row : Row) (ctx : Context ρ) :
    (k.set key row ctx).2.rows = ctx.rows ∨ (k.set key row ctx).2.rows = ctx.rows.set key row := by
  refine state_bind (Q := fun c : Context ρ => c.rows = ctx.rows ∨ c.rows = ctx.rows.set key row)
    (.inl (rows_of_frame (keeps_consumeGas _ ctx))) fun _ t h => .inr ?_
  exact congrArg (·.set key row) (rows_of_frame ((keeps_consumeGas _).of_eq h))

theorem setRow_eq_ok {key : Bytes} {row : Row} {u : Unit} (h : k.set key row ctx = (.ok u, ctx')) :
    ctx'.rows = ctx.rows.set key row := by
  obtain ⟨_, c, hgas, h₁⟩ := bind_eq_ok.mp h
  rw [← (Prod.mk.inj h₁).2]
  exact congrArg (·.set key row) (rows_of_frame ((keeps_consumeGas _).of_eq hgas))

theorem rows_delete_cases (k : Keeper ρ) (key : Bytes) (ctx : Context ρ) :
    (k.delete key ctx).2.rows = ctx.rows ∨ (k.delete key ctx).2.rows = ctx.rows.delete key := by
  refine state_bind (Q := fun c : Context ρ => c.rows = ctx.rows ∨ c.rows = ctx.rows.delete key)
    (.inl (rows_of_frame (keeps_consumeGas _ ctx))) fun _ t h => .inr ?_
  exact congrArg (·.delete key) (rows_of_frame ((keeps_consumeGas _).of_eq h))

end rows

/-! ## Steps -/

namespace Keeper

open Proc

variable {k : Keeper ρ} {n : ℕ} {ctx : Context ρ}

theorem frame_initializeOrGetNextAuthenticatorId (h : Issued k n ctx.rows) :
    (k.initializeOrGetNextAuthenticatorId ctx).2.frame = ctx.frame := by
  refine state_bind (keeps_getRow k _ ctx) fun row t hget => ?_
  obtain ⟨rfl, hframe⟩ := getRow_eq_ok hget
  rw [h.counter]
  exact hframe

variable {id : UInt64} {ctx' : Context ρ} {account : Bytes}

theorem initializeOrGetNextAuthenticatorId_eq_ok (h : Issued k n ctx.rows)
    (hok : k.initializeOrGetNextAuthenticatorId ctx = (.ok id, ctx')) : id = UInt64.ofNat n := by
  obtain ⟨row, t, hget, h₁⟩ := bind_eq_ok.mp hok
  obtain ⟨rfl, -⟩ := getRow_eq_ok hget
  rw [h.counter] at h₁
  exact (pure_eq_ok.mp h₁).1.symm

/-- The counter stands at `n`, or it has just been moved. -/
def IssuedNext (k : Keeper ρ) (n : ℕ) (rows : KVStore Row) : Prop := Issued k n rows ∨ Issued k (n + 1) rows

section

variable (h : Issued k n ctx.rows)

include h

theorem exec_issued {code : Code ρ} (wrap : Err → Err) (hcode : k.AddsNothing ctx.rows (code ctx).store.smartAccount) :
    Issued k n (mapError wrap code.exec ctx).2.rows :=
  keeps_mapError (R := fun c d : Context ρ => k.AddsNothing c.rows (code c).store.smartAccount →
    Issued k n c.rows → Issued k n d.rows) (fun _ hadds hissued => hissued.addsNothing hadds) ctx hcode h

theorem addAuthenticator_issued (hn : n < 2 ^ 64) {type config : Bytes}
    (hquiet : ∀ impl, k.authenticatorManager type = some impl → ∀ id c, c.frame = ctx.frame →
      k.AddsNothing ctx.rows (impl.onAuthenticatorAdded account config id c).store.smartAccount) :
    IssuedNext k n (k.addAuthenticator account type config ctx).2.rows := by
  unfold addAuthenticator
  rcases hmanager : k.authenticatorManager type with _ | impl
  · exact .inl h
  have hframe := frame_initializeOrGetNextAuthenticatorId h
  refine state_bind (Q := fun c : Context ρ => IssuedNext k n c.rows) (.inl ?_) fun id c₁ hget => ?_
  · rwa [rows_of_frame hframe]
  rw [hget] at hframe
  obtain rfl := initializeOrGetNextAuthenticatorId_eq_ok h hget
  have hrows := rows_of_frame hframe
  -- the callback adds nothing, so that the counter still stands where it was read
  have hcallback := exec_issued (hrows ▸ h) (.onAdded · type)
    (hrows ▸ hquiet impl hmanager (decimal (UInt64.ofNat n)) c₁ hframe)
  refine state_bind (Q := fun c : Context ρ => IssuedNext k n c.rows) (.inl hcallback) fun _ c₂ hc₂ => ?_
  rw [hc₂] at hcallback
  refine state_bind (Q := fun c : Context ρ => IssuedNext k n c.rows) ?_ fun _ c₃ hc₃ => .inr ?_
  · rcases rows_set_cases k keyNextAccountAuthenticatorId (.nextId (UInt64.ofNat n + 1)) c₂ with hset | hset
    · exact .inl (hset ▸ hcallback)
    · exact .inr (hset ▸ hcallback.set_counter)
  have hmoved : Issued k (n + 1) c₃.rows := by
    rw [setRow_eq_ok hc₃]
    exact hcallback.set_counter
  have hid : (UInt64.ofNat n).toNat < n + 1 := by
    rw [UInt64.toNat_ofNat_of_lt' hn]
    omega
  refine state_bind (Q := fun c : Context ρ => Issued k (n + 1) c.rows) ?_ fun _ c₄ hc₄ => ?_
  · rcases rows_set_cases k (k.keyAccountId account (UInt64.ofNat n))
      (.authenticator ⟨UInt64.ofNat n, type, config⟩) c₃ with hset | hset
    · exact hset ▸ hmoved
    · exact hset ▸ hmoved.set_authenticator account hid _
  · have := setRow_eq_ok hc₄
    exact this ▸ hmoved.set_authenticator account hid _

theorem addAuthenticator_eq_ok {type config : Bytes}
    (hok : (k.addAuthenticator account type config ctx).1 = .ok id) : id = UInt64.ofNat n := by
  unfold addAuthenticator at hok
  rcases hmanager : k.authenticatorManager type with _ | impl
  · simp [hmanager] at hok
  rw [hmanager] at hok
  obtain ⟨id', c₁, hget, h₁⟩ := bind_eq_ok.mp (Prod.ext hok rfl)
  obtain ⟨_, c₂, -, h₂⟩ := bind_eq_ok.mp h₁
  obtain ⟨_, c₃, -, h₃⟩ := bind_eq_ok.mp h₂
  obtain ⟨_, c₄, -, h₄⟩ := bind_eq_ok.mp h₃
  obtain ⟨rfl, -⟩ := pure_eq_ok.mp h₄
  exact initializeOrGetNextAuthenticatorId_eq_ok h hget

theorem removeAuthenticator_issued
    (hquiet : ∀ existing impl, ctx.rows.get (k.keyAccountId account id) = some (.authenticator existing) →
      k.authenticatorManager existing.type = some impl → ∀ c, c.frame = ctx.frame →
      k.AddsNothing ctx.rows
        (impl.onAuthenticatorRemoved account existing.config (decimal id) c).store.smartAccount) :
    Issued k n (k.removeAuthenticator account id ctx).2.rows := by
  refine state_bind (Q := fun c : Context ρ => Issued k n c.rows) ?_ fun row c₁ hget => ?_
  · exact rows_of_frame (keeps_getRow k _ ctx) ▸ h
  obtain ⟨rfl, hframe⟩ := getRow_eq_ok hget
  have hrows := rows_of_frame hframe
  have hc₁ : Issued k n c₁.rows := hrows ▸ h
  rcases hrow : ctx.rows.get (k.keyAccountId account id) with _ | _ | _ | existing
  · exact hc₁
  · exact hc₁
  · exact hc₁
  dsimp only
  rcases hmanager : k.authenticatorManager existing.type with _ | impl
  · exact hc₁
  have hcallback := exec_issued hc₁ (.onRemoved · existing.type) (hrows ▸ hquiet existing impl hrow hmanager c₁ hframe)
  refine state_bind (Q := fun c : Context ρ => Issued k n c.rows) hcallback fun _ c₂ hc₂ => ?_
  rw [hc₂] at hcallback
  rcases rows_delete_cases k (k.keyAccountId account id) c₂ with hdelete | hdelete
  · exact hdelete ▸ hcallback
  · exact hdelete ▸ hcallback.delete account id

end

/-! ## Runs -/

variable {rows : KVStore Row}

theorem invoke_issued (h : Issued k n rows) {inv : Invocation ρ} (hquiet : k.Quiet rows inv)
    (hn : n + (if inv.isAdd then 1 else 0) ≤ 2 ^ 64) :
    ∃ m, Issued k m (k.invoke rows inv) ∧ n ≤ m ∧ m ≤ n + (if inv.isAdd then 1 else 0) := by
  obtain ⟨ctx, change⟩ := inv
  cases change with
  | add account type config =>
    have hctx : Issued k n (Invocation.context ⟨ctx, .add account type config⟩ rows).rows := h
    simp only [Invocation.isAdd, if_true] at hn
    rcases addAuthenticator_issued hctx (by omega) hquiet with hsame | hmoved
    · exact ⟨n, hsame, le_rfl, by simp⟩
    · exact ⟨n + 1, hmoved, by omega, by simp [Invocation.isAdd]⟩
  | remove account id =>
    have hctx : Issued k n (Invocation.context ⟨ctx, .remove account id⟩ rows).rows := h
    exact ⟨n, removeAuthenticator_issued hctx hquiet, le_rfl, by simp⟩

theorem run_issued : ∀ (invs : List (Invocation ρ)) (n : ℕ) (rows : KVStore Row), Issued k n rows →
    Along k.invoke k.Quiet rows invs → n + invs.countP Invocation.isAdd ≤ 2 ^ 64 →
    ∃ m, Issued k m (run k.invoke rows invs) ∧ n ≤ m ∧ m ≤ n + invs.countP Invocation.isAdd
  | [], n, _, h, _, _ => ⟨n, h, le_rfl, by simp⟩
  | inv :: invs, n, rows, h, ⟨hquiet, halong⟩, hn => by
    rw [countP_cons] at hn ⊢
    obtain ⟨m, hm, hle, hge⟩ := invoke_issued h hquiet (by omega)
    obtain ⟨m', hm', hle', hge'⟩ := run_issued invs m _ hm halong (by omega)
    exact ⟨m', hm', by omega, by omega⟩

theorem neverReused_of_issued (h : Issued k n rows) {invs : List (Invocation ρ)}
    (hquiet : Along k.invoke k.Quiet rows invs) (hn : n + invs.countP Invocation.isAdd ≤ 2 ^ 64) :
    k.NeverReused rows invs := by
  rintro before inv after rfl id hreturns earlier ⟨rest, rfl⟩ hstored
  obtain ⟨hbefore, -⟩ := Along.of_append hquiet
  obtain ⟨hearlier, hrest⟩ := Along.of_append hbefore
  simp only [countP_append, countP_cons] at hn
  obtain ⟨m, hm, hle, hge⟩ := run_issued earlier n rows h hearlier (by omega)
  obtain ⟨m', hm', hle', hge'⟩ := run_issued rest m _ hm hrest (by omega)
  rw [← run_append] at hm'
  -- the id is the counter of the state it is returned in, which is at least that of the earlier one
  have hid : id = UInt64.ofNat m' ∧ inv.isAdd = true := by
    obtain ⟨ctx, change⟩ := inv
    cases change with
    | add account type config =>
      have hctx : Issued k m' (Invocation.context ⟨ctx, .add account type config⟩
        (run k.invoke rows (earlier ++ rest))).rows := hm'
      exact ⟨addAuthenticator_eq_ok hctx hreturns, rfl⟩
    | remove => exact hreturns.elim
  have hlt := hm.below id hstored
  rw [hid.2, if_pos rfl] at hn
  rw [hid.1, UInt64.toNat_ofNat_of_lt' (show m' < 2 ^ 64 by omega)] at hlt
  omega

/-! ## Genesis -/

theorem setParams_eq_ok {params : Params} {u : Unit}
    (h : k.setParams params ctx = (.ok u, ctx')) : ctx'.rows = ctx.rows.set paramsKey (.params params) := by
  unfold setParams at h
  cases hvalid : k.validParams params with
  | false =>
    simp only [hvalid] at h
    obtain ⟨_, _, h₁, -⟩ := bind_eq_ok.mp h
    cases h₁
  | true =>
    simp only [hvalid] at h
    exact setRow_eq_ok h

theorem keeps_initAuthenticators (accAddr : Bytes) {authenticators : List AccountAuthenticator}
    (hids : ∀ data ∈ authenticators, data.id.toNat < n) :
    Keeps (Preserving fun c : Context ρ => Issued k n c.rows) (k.initAuthenticators accAddr authenticators) := by
  refine keeps_bind (keeps_forEach _ _ fun _ data hdata => ?_) fun _ => keeps_pure _
  refine keeps_catchError ?_ fun _ => keeps_ofOutcome _
  unfold addAuthenticatorWithId
  rcases k.authenticatorManager data.type with _ | impl
  · exact keeps_fail _
  refine keeps_bind (fun c hc => ?_) fun _ c hc => ?_
  · exact hc
  · rcases rows_set_cases k (k.keyAccountId accAddr data.id) (.authenticator ⟨data.id, data.type, data.config⟩) c
      with hset | hset
    · exact hset ▸ hc
    · exact hset ▸ hc.set_authenticator accAddr (hids data hdata) _

theorem initGenesis_issued {gs : GenesisState} (hempty : ctx.rows = .empty)
    (hids : ∀ data ∈ gs.authenticatorData, ∀ a ∈ data.authenticators, a.id < gs.firstId)
    (h : k.initGenesis gs ctx = (.ok (), ctx')) : Issued k gs.firstId.toNat ctx'.rows := by
  obtain ⟨_, c₁, hparams, h₁⟩ := bind_eq_ok.mp h
  obtain ⟨_, c₂, hnext, h₂⟩ := bind_eq_ok.mp h₁
  have hrows := setRow_eq_ok hnext
  rw [setParams_eq_ok hparams, hempty] at hrows
  have hc₂ : Issued k gs.firstId.toNat c₂.rows := by
    rw [hrows]
    constructor
    · rw [get_set_self, UInt64.ofNat_toNat]
    · rintro id ⟨account, hstored⟩
      cases hstored
  have hrest : Preserving (fun c : Context ρ => Issued k gs.firstId.toNat c.rows) c₂ ctx' := by
    refine Keeps.of_eq (keeps_bind (keeps_forEach _ _ fun _ data hdata => ?_) fun _ => keeps_pure _) h₂
    rcases k.accAddressFromBech32 data.address with _ | accAddr
    · exact keeps_ofOutcome _
    · exact keeps_initAuthenticators accAddr fun a ha => UInt64.lt_iff_toNat_lt.mp (hids data hdata a ha)
  exact hrest hc₂

end Keeper

/-- From a genesis whose ids are below its counter, no id is returned twice as long as the callbacks add nothing
themselves. -/
theorem ids_never_reused (k : Keeper ρ) (gs : GenesisState) (ctx ctx' : Context ρ) (hempty : ctx.rows = .empty)
    (_hvalid : k.validateGenesis gs = true) (hinit : k.initGenesis gs ctx = (.ok (), ctx'))
    (hids : ∀ data ∈ gs.authenticatorData, ∀ a ∈ data.authenticators, a.id < gs.firstId)
    (invs : List (Invocation ρ)) (hquiet : Along k.invoke k.Quiet ctx'.rows invs)
    (hroom : gs.firstId.toNat + invs.countP Invocation.isAdd ≤ 2 ^ 64) : k.NeverReused ctx'.rows invs :=
  Keeper.neverReused_of_issued (Keeper.initGenesis_issued hempty hids hinit) hquiet hroom

namespace Sample

def emptyStore : Context Unit := ⟨header, ⟨.empty, .empty, [], ()⟩, ⟨none, 0⟩⟩

/-- A genesis with an authenticator of alice. -/
def genesisWith (next id : UInt64) : GenesisState :=
  ⟨defaultParams, next, [⟨alice, [⟨id, ascii "accept", []⟩]⟩]⟩

def addTo (account : Bytes) : Invocation Unit := ⟨emptyStore, .add account (ascii "limit") []⟩

def removeFrom (account : Bytes) (id : UInt64) : Invocation Unit := ⟨emptyStore, .remove account id⟩

theorem quiet_sample (rows : KVStore Row) (inv : Invocation Unit) : keeper.Quiet rows inv := by
  have hsame : ∀ ctx : Context Unit, ctx.frame = (inv.context rows).frame → keeper.AddsNothing rows ctx.rows := by
    intro ctx hframe
    rw [rows_of_frame hframe]
    exact ⟨rfl, fun _ => id⟩
  obtain ⟨ctx, change⟩ := inv
  cases change with
  | add =>
    intro impl hmanager id c hframe
    obtain ⟨_, _, -, rfl⟩ := manager_cases hmanager
    exact hsame c hframe
  | remove =>
    intro existing impl _ hmanager c hframe
    obtain ⟨_, _, -, rfl⟩ := manager_cases hmanager
    exact hsame c hframe

end Sample

open Sample in
theorem alice_ids_fresh :
    keeper.NeverReused (keeper.initGenesis (genesisWith 2 1) emptyStore).2.rows
      [addTo alice, removeFrom alice 2, addTo bob, addTo alice] := by
  have hinit : (keeper.initGenesis (genesisWith 2 1) emptyStore).1 = .ok () := by decide +kernel
  exact ids_never_reused keeper (genesisWith 2 1) emptyStore _ rfl (by decide) (Prod.ext hinit rfl) (by decide)
    _ (Along.of_forall quiet_sample _ _) (by decide)

open Sample in
/-- The genesis has alice's authenticator 1 and the counter at 1: the next one gets the id 1 again and takes its
place. -/
theorem alice_id_reused :
    let rows := (keeper.initGenesis (genesisWith 0 1) emptyStore).2.rows
    keeper.validateGenesis (genesisWith 0 1) = true ∧ (keeper.initGenesis (genesisWith 0 1) emptyStore).1 = .ok () ∧
      rows.get (keeper.keyAccountId alice 1) = some (.authenticator ⟨1, ascii "accept", []⟩) ∧
      (keeper.invoke rows (addTo alice)).get (keeper.keyAccountId alice 1) =
        some (.authenticator ⟨1, ascii "limit", []⟩) ∧
      ¬ keeper.NeverReused rows [addTo alice] := by
  intro rows
  refine ⟨by decide, by decide +kernel, by decide +kernel, by decide +kernel, fun h => ?_⟩
  have hreturns : keeper.Returns rows (addTo alice) 1 := by
    show (keeper.addAuthenticator alice (ascii "limit") [] ((addTo alice).context rows)).1 = .ok 1
    decide +kernel
  exact h [] (addTo alice) [] rfl 1 hreturns [] prefix_rfl ⟨alice, by decide +kernel⟩

end SmartAccount
