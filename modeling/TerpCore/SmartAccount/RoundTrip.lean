/-
  The smart accounts through an export and an import.

  A counter of zero is read as a counter that is not set.
-/
import TerpCore.SmartAccount.Ids

namespace SmartAccount

open Lib KVStore List

variable {ρ : Type}

/-! ## Rows under their keys -/

namespace Keeper

variable (k : Keeper ρ)

/-- The account is written as some address. -/
def IsAddress (account : Bytes) : Prop := ∃ address, k.accAddressFromBech32 address = some account

/-- The string of an account is an address of it, and has no separator. -/
def AddressCodec : Prop :=
  ∀ account, k.IsAddress account →
    k.accAddressFromBech32 (k.accString account) = some account ∧ (0x7c : UInt8) ∉ k.accString account

def Placed : Row → Bytes → Prop
  | .params params, key => key = paramsKey ∧ k.validParams params = true
  | .nextId _, key => key = keyNextAccountAuthenticatorId
  | .authenticator a, key => ∃ account, k.IsAddress account ∧ key = k.keyAccountId account a.id

/-- All rows stand where they belong, and the counter is set. -/
structure Tidy (rows : KVStore Row) : Prop where
  row : ∀ key row, rows.get key = some row → k.Placed row key
  counter : ∃ id, rows.get keyNextAccountAuthenticatorId = some (.nextId id)

/-- The callbacks of the authenticators leave the rows of the module tidy. -/
structure CallbacksTidy : Prop where
  added : ∀ type impl, k.authenticatorManager type = some impl → ∀ account config id ctx,
    k.Tidy ctx.rows → k.Tidy (impl.onAuthenticatorAdded account config id ctx).store.smartAccount
  removed : ∀ type impl, k.authenticatorManager type = some impl → ∀ account config id ctx,
    k.Tidy ctx.rows → k.Tidy (impl.onAuthenticatorRemoved account config id ctx).store.smartAccount

end Keeper

section tidy

open Proc

variable {k : Keeper ρ} {rows : KVStore Row}

theorem Keeper.Tidy.set (h : k.Tidy rows) {key : Bytes} {row : Row} (hplaced : k.Placed row key) :
    k.Tidy (rows.set key row) := by
  constructor
  · intro key' row' hget
    rw [get_set] at hget
    split_ifs at hget with hkey
    · rw [← hkey, ← Option.some.inj hget]
      exact hplaced
    · exact h.row key' row' hget
  · by_cases hkey : key = keyNextAccountAuthenticatorId
    · subst hkey
      cases row with
      | params params => exact absurd hplaced.1.symm Keeper.paramsKey_ne_counter
      | nextId id => exact ⟨id, get_set_self _ _ _⟩
      | authenticator a =>
        obtain ⟨account, -, hkey⟩ := hplaced
        exact absurd hkey.symm (Keeper.keyAccountId_ne_counter account a.id)
    · rw [get_set_of_ne _ _ hkey]
      exact h.counter

theorem Keeper.Tidy.delete (h : k.Tidy rows) (account : Bytes) (id : UInt64) :
    k.Tidy (rows.delete (k.keyAccountId account id)) := by
  constructor
  · intro key row hget
    rw [get_delete] at hget
    split_ifs at hget
    exact h.row key row hget
  · rw [get_delete_of_ne _ (Keeper.keyAccountId_ne_counter account id)]
    exact h.counter

/-- Code keeps the rows tidy, however it ends. -/
abbrev KeepsTidy {α : Type} (k : Keeper ρ) (p : Proc (Context ρ) Err α) : Prop :=
  Keeps (Preserving fun ctx : Context ρ => k.Tidy ctx.rows) p

theorem keepsTidy_get (key : Bytes) : KeepsTidy k (k.get key) := by
  intro ctx h
  rwa [rows_of_frame (keeps_getRow k key ctx)]

theorem keepsTidy_set {key : Bytes} {row : Row} (hplaced : k.Placed row key) : KeepsTidy k (k.set key row) := by
  intro ctx h
  rcases rows_set_cases k key row ctx with hrows | hrows
  · rwa [hrows]
  · rw [hrows]
    exact h.set hplaced

theorem keepsTidy_exec {code : Code ρ} (h : ∀ ctx : Context ρ, k.Tidy ctx.rows → k.Tidy (code ctx).store.smartAccount)
    (wrap : Err → Err) : KeepsTidy k (.mapError wrap code.exec) :=
  keeps_mapError h

theorem keepsTidy_getParams : KeepsTidy k k.getParams := by
  intro ctx h
  rwa [rows_of_frame (keeps_getParams k ctx)]

theorem keepsTidy_setParams (params : Params) : KeepsTidy k (k.setParams params) := by
  unfold Keeper.setParams
  cases hvalid : k.validParams params with
  | false =>
    exact keeps_bind_of_ok (keeps_ofOutcome _) fun _ _ _ h => absurd (congrArg Prod.fst h) (by simp [ofOutcome])
  | true =>
    have hplaced : k.Placed (.params params) paramsKey := ⟨rfl, hvalid⟩
    exact keepsTidy_set hplaced

theorem keepsTidy_setNextAuthenticatorId (id : UInt64) : KeepsTidy k (k.setNextAuthenticatorId id) := by
  have hplaced : k.Placed (.nextId id) keyNextAccountAuthenticatorId := rfl
  exact keepsTidy_set hplaced

theorem keepsTidy_initializeOrGetNextAuthenticatorId : KeepsTidy k k.initializeOrGetNextAuthenticatorId := by
  refine keeps_bind (keepsTidy_get _) fun row => ?_
  split
  · exact keeps_bind (keepsTidy_setNextAuthenticatorId _) fun _ => keeps_pure _
  · exact keeps_pure _
  · exact keeps_ofOutcome _

theorem keepsTidy_addAuthenticator (hk : k.CallbacksTidy) {account : Bytes} (haccount : k.IsAddress account)
    (type config : Bytes) : KeepsTidy k (k.addAuthenticator account type config) := by
  unfold Keeper.addAuthenticator
  cases hmanager : k.authenticatorManager type with
  | none => exact keeps_fail _
  | some impl =>
    refine keeps_bind keepsTidy_initializeOrGetNextAuthenticatorId fun id => ?_
    refine keeps_bind (keepsTidy_exec (fun ctx => hk.added type impl hmanager account config _ ctx) _) fun _ => ?_
    refine keeps_bind (keepsTidy_setNextAuthenticatorId _) fun _ => ?_
    have hplaced : k.Placed (.authenticator ⟨id, type, config⟩) (k.keyAccountId account id) :=
      ⟨account, haccount, rfl⟩
    exact keeps_bind (keepsTidy_set hplaced) fun _ => keeps_pure _

theorem keepsTidy_removeAuthenticator (hk : k.CallbacksTidy) (account : Bytes) (id : UInt64) :
    KeepsTidy k (k.removeAuthenticator account id) := by
  refine keeps_bind (keepsTidy_get _) fun row => ?_
  split
  · exact keeps_fail _
  · next existing =>
    cases hmanager : k.authenticatorManager existing.type with
    | none => exact keeps_fail _
    | some impl =>
      refine keeps_bind (keepsTidy_exec (fun ctx => hk.removed _ impl hmanager account _ _ ctx) _) fun _ => ?_
      intro ctx h
      rcases rows_delete_cases k (k.keyAccountId account id) ctx with hrows | hrows
      · rwa [hrows]
      · rw [hrows]
        exact h.delete account id
  · exact keeps_fail _

theorem keepsTidy_initAuthenticators {account : Bytes} (haccount : k.IsAddress account)
    (authenticators : List AccountAuthenticator) : KeepsTidy k (k.initAuthenticators account authenticators) := by
  refine keeps_bind (keeps_forEach _ _ fun _ data _ => ?_) fun _ => keeps_pure _
  refine keeps_catchError ?_ fun _ => keeps_ofOutcome _
  unfold Keeper.addAuthenticatorWithId
  cases k.authenticatorManager data.type with
  | none => exact keeps_fail _
  | some impl =>
    have hplaced : k.Placed (.authenticator ⟨data.id, data.type, data.config⟩) (k.keyAccountId account data.id) :=
      ⟨account, haccount, rfl⟩
    exact keeps_bind (fun _ h => h) fun _ => keepsTidy_set hplaced

theorem validParams_of_setParams {params : Params} {ctx : Context ρ} (h : (k.setParams params ctx).1 = .ok ()) :
    k.validParams params = true := by
  unfold Keeper.setParams at h
  cases hvalid : k.validParams params with
  | true => rfl
  | false =>
    simp only [hvalid] at h
    obtain ⟨_, _, hpanic, -⟩ := bind_eq_ok.mp (Prod.ext h rfl)
    cases hpanic

def genesisRows (params : Params) (id : UInt64) : KVStore Row :=
  (empty.set paramsKey (.params params)).set keyNextAccountAuthenticatorId (.nextId id)

theorem get_genesisRows {params : Params} {id : UInt64} {key : Bytes} {row : Row}
    (h : (genesisRows params id).get key = some row) :
    key = keyNextAccountAuthenticatorId ∧ row = .nextId id ∨ key = paramsKey ∧ row = .params params := by
  rw [genesisRows, get_set, get_set, get_empty] at h
  split_ifs at h with hcounter hparams
  · exact .inl ⟨hcounter.symm, (Option.some.inj h).symm⟩
  · exact .inr ⟨hparams.symm, (Option.some.inj h).symm⟩

theorem tidy_genesisRows {params : Params} (hvalid : k.validParams params = true) (id : UInt64) :
    k.Tidy (genesisRows params id) := by
  refine ⟨fun key row h => ?_, id, get_set_self _ _ _⟩
  rcases get_genesisRows h with ⟨hkey, rfl⟩ | ⟨hkey, rfl⟩
  · exact hkey
  · exact ⟨hkey, hvalid⟩

theorem tidy_initGenesis {gs : GenesisState} {ctx ctx' : Context ρ} (hempty : ctx.rows = .empty)
    (h : k.initGenesis gs ctx = (.ok (), ctx')) : k.Tidy ctx'.rows := by
  obtain ⟨_, c₁, hparams, h₁⟩ := bind_eq_ok.mp h
  obtain ⟨_, c₂, hnext, h₂⟩ := bind_eq_ok.mp h₁
  have hvalid := validParams_of_setParams (congrArg Prod.fst hparams)
  have hc₂ : k.Tidy c₂.rows := by
    rw [setRow_eq_ok hnext, Keeper.setParams_eq_ok hparams, hempty]
    exact tidy_genesisRows hvalid gs.firstId
  refine Keeps.of_eq (R := Preserving fun c : Context ρ => k.Tidy c.rows)
    (keeps_bind (keeps_forEach _ _ fun _ data _ => ?_) fun _ => keeps_pure _) h₂ hc₂
  cases hdecode : k.accAddressFromBech32 data.address with
  | none => exact keeps_ofOutcome _
  | some account => exact keepsTidy_initAuthenticators ⟨_, hdecode⟩ _

end tidy

/-! ## Histories -/

inductive Update where
  | setParams (params : Params)
  | setActiveState (active : Bool)
  deriving DecidableEq

inductive Event (ρ : Type) where
  | call (inv : Invocation ρ)
  | update (ctx : Context ρ) (u : Update)

def Keeper.happen (k : Keeper ρ) (rows : KVStore Row) : Event ρ → KVStore Row
  | .call inv => k.invoke rows inv
  | .update ctx (.setParams params) =>
    (k.setParams params { ctx with store := { ctx.store with smartAccount := rows } }).2.rows
  | .update ctx (.setActiveState active) =>
    (k.setActiveState active { ctx with store := { ctx.store with smartAccount := rows } }).2.rows

/-- Authenticators are added to accounts that have an address. -/
def Keeper.Addressed (k : Keeper ρ) : Event ρ → Prop
  | .call ⟨_, .add account _ _⟩ => k.IsAddress account
  | _ => True

section histories

variable {k : Keeper ρ}

theorem tidy_happen (hk : k.CallbacksTidy) {rows : KVStore Row} (h : k.Tidy rows) {e : Event ρ}
    (haddressed : k.Addressed e) : k.Tidy (k.happen rows e) := by
  cases e with
  | call inv =>
    obtain ⟨ctx, change⟩ := inv
    cases change with
    | add account type config => exact keepsTidy_addAuthenticator hk haddressed type config _ h
    | remove account id => exact keepsTidy_removeAuthenticator hk account id _ h
  | update ctx u =>
    cases u with
    | setParams params => exact keepsTidy_setParams params _ h
    | setActiveState active =>
      exact Proc.keeps_bind keepsTidy_getParams (fun _ => keepsTidy_setParams _) _ h

theorem tidy_run (hk : k.CallbacksTidy) {rows : KVStore Row} (h : k.Tidy rows) (events : List (Event ρ))
    (haddressed : ∀ e ∈ events, k.Addressed e) : k.Tidy (run k.happen rows events) :=
  run_invariant (I := k.Tidy) (fun _ _ hrows he => tidy_happen hk hrows he) rows events (Along.of_mem haddressed rows) h

end histories

/-! ## Code without a limit on gas -/

/-- The counter of the gas meter overflowed. -/
def Saturated (ctx : Context ρ) : Prop := ctx.gasMeter.consumed = -1

/-- The context has the rows, and a gas meter without a limit. -/
structure At (rows : KVStore Row) (ctx : Context ρ) : Prop where
  rows : ctx.rows = rows
  limit : ctx.gasMeter.limit = none

def paramsOf (rows : KVStore Row) : Params :=
  match rows.get paramsKey with
  | some (.params params) => params
  | _ => defaultParams

def nextIdOf (rows : KVStore Row) : UInt64 :=
  match rows.get keyNextAccountAuthenticatorId with
  | some (.nextId id) => id
  | _ => Keeper.firstAuthenticatorId

section unlimited

open Proc

variable {k : Keeper ρ} {rows : KVStore Row} {ctx : Context ρ}

theorem consumeGas_returns (h : At rows ctx) (amount : UInt64) :
    ReturnsOr Saturated (fun _ c => At rows c) (consumeGas amount ctx) := by
  unfold consumeGas zoom GasMeter.consumeGas
  split_ifs with hoverflow
  · exact .inr ⟨rfl, rfl⟩
  · refine .inl ⟨(), ?_, h.rows, h.limit⟩
    simp [GasMeter.isPastLimit, h.limit]

theorem getRow_returns (h : At rows ctx) (key : Bytes) :
    ReturnsOr Saturated (fun row c => row = rows.get key ∧ At rows c) (k.get key ctx) := by
  refine ReturnsOr.bind (Q := fun c c' => c = ctx ∧ c' = ctx) (.inl ⟨ctx, rfl, rfl, rfl⟩) ?_
  rintro _ _ ⟨rfl, rfl⟩
  refine (consumeGas_returns h _).bind fun _ c hc => returnsOr_pure ⟨?_, hc⟩
  exact congrArg (get · key) h.rows

theorem setRow_returns (h : At rows ctx) (key : Bytes) (row : Row) :
    ReturnsOr Saturated (fun _ c => At (rows.set key row) c) (k.set key row ctx) := by
  refine (consumeGas_returns h _).bind fun _ c hc => .inl ⟨(), rfl, ?_, hc.limit⟩
  exact congrArg (set · key row) hc.rows

theorem getParams_returns (h : At rows ctx) :
    ReturnsOr Saturated (fun params c => params = paramsOf rows ∧ At rows c) (k.getParams ctx) := by
  refine (getRow_returns h _).bind ?_
  rintro _ c ⟨rfl, hc⟩
  rcases hrow : rows.get paramsKey with _ | params | id | a <;>
    exact returnsOr_pure ⟨by rw [paramsOf, hrow], hc⟩

theorem nextId_returns (htidy : k.Tidy rows) (h : At rows ctx) :
    ReturnsOr Saturated (fun id c => id = nextIdOf rows ∧ At rows c) (k.initializeOrGetNextAuthenticatorId ctx) := by
  refine (getRow_returns h _).bind ?_
  rintro _ c ⟨rfl, hc⟩
  obtain ⟨id, hid⟩ := htidy.counter
  rw [nextIdOf, hid]
  exact returnsOr_pure ⟨rfl, hc⟩

end unlimited

/-! ## Export -/

/-- The authenticators of a genesis, each with its address. -/
def entries (data : List AuthenticatorData) : List (Bytes × AccountAuthenticator) :=
  data.flatMap fun d => d.authenticators.map fun a => (d.address, a)

theorem mem_entries_appendAuthenticator {data : List AuthenticatorData} {addr : Bytes} {a : AccountAuthenticator}
    {e : Bytes × AccountAuthenticator} :
    e ∈ entries (appendAuthenticator data addr a) ↔ e ∈ entries data ∨ e = (addr, a) := by
  unfold appendAuthenticator
  cases hlast : data.getLast? with
  | none => simp [List.getLast?_eq_none_iff.mp hlast, entries]
  | some last =>
    dsimp only
    split_ifs with haddr
    · simp [entries]
    · rw [not_not] at haddr
      obtain ⟨init, rfl⟩ : ∃ init, data = init ++ [last] :=
        ⟨data.dropLast, (dropLast_append_getLast? last hlast).symm⟩
      simp [entries, haddr, or_assoc]

theorem appendAuthenticator_ne_nil {data : List AuthenticatorData} (h : ∀ d ∈ data, d.authenticators ≠ [])
    (addr : Bytes) (a : AccountAuthenticator) : ∀ d ∈ appendAuthenticator data addr a, d.authenticators ≠ [] := by
  unfold appendAuthenticator
  intro d hd
  split at hd
  · split_ifs at hd
    · rcases mem_append.mp hd with hd | hd
      · exact h d hd
      · simp [mem_singleton.mp hd]
    · rcases mem_append.mp hd with hd | hd
      · exact h d (dropLast_subset _ hd)
      · simp [mem_singleton.mp hd]
  · simp [mem_singleton.mp hd]

section exported

open Proc

variable {k : Keeper ρ} {rows : KVStore Row}

theorem split_keyAccountId (hcodec : k.AddressCodec) {account : Bytes} (haccount : k.IsAddress account) (id : UInt64) :
    (split 0x7c (k.keyAccountId account id))[1]? = some (k.accString account) := by
  have hhead : ascii "[2]|" = ascii "[2]" ++ [0x7c] := by decide
  rw [Keeper.keyAccountId_eq, hhead]
  simp only [append_assoc, cons_append, nil_append]
  rw [split_append (by decide), split_append (hcodec account haccount).2]
  rfl

theorem keyAccountId_eq_append (account : Bytes) (id : UInt64) :
    ∃ key, k.keyAccountId account id = keyAccountAuthenticatorsPrefixId ++ key := by
  refine ⟨k.accString account ++ 124 :: decimal id ++ [124], ?_⟩
  rw [Keeper.keyAccountId_eq, show keyAccountAuthenticatorsPrefixId = ascii "[2]|" by decide]
  simp only [append_assoc]

theorem Keeper.Tidy.authenticator (h : k.Tidy rows) {key : Bytes} {row : Row}
    (hrow : rows.get (keyAccountAuthenticatorsPrefixId ++ key) = some row) :
    ∃ account a, k.IsAddress account ∧ row = .authenticator a ∧
      keyAccountAuthenticatorsPrefixId ++ key = k.keyAccountId account a.id := by
  have hplaced := h.row _ _ hrow
  have hhead : keyAccountAuthenticatorsPrefixId = ascii "[2]|" := by decide
  cases row with
  | params params =>
    have hkey := congrArg List.head? hplaced.1
    simp [hhead, ascii, paramsKey] at hkey
  | nextId id =>
    have hkey := congrArg (fun bs : Bytes => bs[1]?) (show _ = ascii "[1]|" from hplaced)
    simp [hhead, ascii] at hkey
  | authenticator a =>
    obtain ⟨account, haccount, hkey⟩ := hplaced
    exact ⟨account, a, haccount, rfl, hkey⟩

theorem parseAll_returns : ∀ {rs : List (Bytes × Row)} {data : List AuthenticatorData} {ctx : Context ρ},
    (∀ r ∈ rs, ∃ a addr, r.2 = .authenticator a ∧ (split 0x7c r.1)[1]? = some addr) →
    (∀ d ∈ data, d.authenticators ≠ []) → At rows ctx →
    ReturnsOr Saturated (fun data' _ => (∀ d ∈ data', d.authenticators ≠ []) ∧
      ∀ addr a, (addr, a) ∈ entries data' ↔ (addr, a) ∈ entries data ∨
        ∃ r ∈ rs, r.2 = .authenticator a ∧ (split 0x7c r.1)[1]? = some addr) (k.parseAll data rs ctx)
  | [], data, ctx, _, hdata, h => returnsOr_pure ⟨hdata, by simp⟩
  | (key, row) :: rs, data, ctx, hrs, hdata, h => by
    obtain ⟨a₀, addr₀, rfl, haddr⟩ := hrs (key, row) mem_cons_self
    refine (consumeGas_returns h _).bind fun _ c hc => ?_
    simp only [parseAuthenticator, haddr]
    refine ReturnsOr.bind (Q := fun data' c' => data' = appendAuthenticator data addr₀ a₀ ∧ At rows c')
      (returnsOr_pure ⟨rfl, hc⟩) ?_
    rintro _ c' ⟨rfl, hc'⟩
    refine ReturnsOr.imp (parseAll_returns (fun r hr => hrs r (mem_cons_of_mem _ hr))
      (appendAuthenticator_ne_nil hdata addr₀ a₀) hc') ?_
    rintro data' c'' ⟨hdata', hentries⟩
    refine ⟨hdata', fun addr a => ?_⟩
    rw [hentries, mem_entries_appendAuthenticator]
    simp [haddr, or_assoc, and_comm, eq_comm]

/-- What a genesis says about the rows it was exported from. -/
structure Exports (k : Keeper ρ) (rows : KVStore Row) (gs : GenesisState) : Prop where
  params : gs.params = paramsOf rows
  nextId : gs.nextAuthenticatorId = nextIdOf rows
  data : ∀ d ∈ gs.authenticatorData, d.authenticators ≠ []
  entries : ∀ addr a, (addr, a) ∈ entries gs.authenticatorData ↔ ∃ account, k.IsAddress account ∧
    addr = k.accString account ∧ rows.get (k.keyAccountId account a.id) = some (.authenticator a)

variable {ctx : Context ρ}

theorem getAllAuthenticatorData_returns (hcodec : k.AddressCodec) (htidy : k.Tidy rows) (h : At rows ctx) :
    ReturnsOr Saturated (fun data _ => (∀ d ∈ data, d.authenticators ≠ []) ∧
      ∀ addr a, (addr, a) ∈ entries data ↔ ∃ account, k.IsAddress account ∧ addr = k.accString account ∧
        rows.get (k.keyAccountId account a.id) = some (.authenticator a)) (k.getAllAuthenticatorData ctx) := by
  refine ReturnsOr.imp (parseAll_returns ?_ (by simp) h) ?_
  · intro r hr
    obtain ⟨⟨key, row⟩, hmem, rfl⟩ := mem_map.mp hr
    rw [mem_iterator, show ctx.store.smartAccount = rows from h.rows] at hmem
    obtain ⟨account, a, haccount, rfl, hkey⟩ := htidy.authenticator hmem
    refine ⟨a, k.accString account, rfl, ?_⟩
    rw [hkey]
    exact split_keyAccountId hcodec haccount a.id
  · rintro data c ⟨hdata, hentries⟩
    refine ⟨hdata, fun addr a => ?_⟩
    rw [hentries]
    simp only [entries, flatMap_nil, not_mem_nil, false_or]
    constructor
    · rintro ⟨r, hr, hrow, haddr⟩
      obtain ⟨⟨key, row⟩, hmem, rfl⟩ := mem_map.mp hr
      obtain rfl : row = .authenticator a := hrow
      rw [mem_iterator, show ctx.store.smartAccount = rows from h.rows] at hmem
      obtain ⟨account, a', haccount, hrow, hkey⟩ := htidy.authenticator hmem
      cases hrow
      rw [hkey] at hmem haddr
      rw [split_keyAccountId hcodec haccount] at haddr
      exact ⟨account, haccount, (Option.some.inj haddr).symm, hmem⟩
    · rintro ⟨account, haccount, rfl, hget⟩
      obtain ⟨key, hkey⟩ := keyAccountId_eq_append account a.id
      refine ⟨(k.keyAccountId account a.id, .authenticator a), ?_, rfl, split_keyAccountId hcodec haccount a.id⟩
      rw [hkey] at hget ⊢
      refine mem_map.mpr ⟨(key, .authenticator a), ?_, rfl⟩
      rwa [mem_iterator, show ctx.store.smartAccount = rows from h.rows]

theorem exportGenesis_returns (hcodec : k.AddressCodec) (htidy : k.Tidy rows) (h : At rows ctx) :
    ReturnsOr Saturated (fun gs _ => Exports k rows gs) (k.exportGenesis ctx) := by
  refine (getParams_returns h).bind ?_
  rintro _ c₁ ⟨rfl, hc₁⟩
  refine (nextId_returns htidy hc₁).bind ?_
  rintro _ c₂ ⟨rfl, hc₂⟩
  refine ((getAllAuthenticatorData_returns hcodec htidy hc₂).catchError fun _ _ hsat => ⟨rfl, hsat⟩).bind ?_
  rintro data c₃ ⟨hdata, hentries⟩
  exact returnsOr_pure ⟨rfl, rfl, hdata, hentries⟩

end exported

/-! ## Import -/

def written (e : Bytes × AccountAuthenticator) : Bytes × Row :=
  (buildKey [ascii "[2]", e.1, decimal e.2.id], .authenticator e.2)

/-- Every authenticator has a registered type, which accepts its configuration again. -/
def Keeper.AcceptsAgain (k : Keeper ρ) (rows : KVStore Row) : Prop :=
  ∀ account a, k.IsAddress account → rows.get (k.keyAccountId account a.id) = some (.authenticator a) →
    ∃ impl, k.authenticatorManager a.type = some impl ∧
      ∀ ctx, (impl.onAuthenticatorAdded account a.config (decimal a.id) ctx).exit = .ok ()

/-- What the import gives back: every authenticator of every account, the parameters and the next id. -/
structure Restored (rows rows' : KVStore Row) : Prop where
  authenticators : ∀ key, rows'.get (keyAccountAuthenticatorsPrefixId ++ key) =
    rows.get (keyAccountAuthenticatorsPrefixId ++ key)
  params : paramsOf rows' = paramsOf rows
  nextId : nextIdOf rows' = nextIdOf rows

section imported

open Proc

variable {k : Keeper ρ} {rows : KVStore Row} {ctx : Context ρ} {gs : GenesisState}

theorem addAuthenticatorWithId_returns {account type config : Bytes} {id : UInt64} {impl : RegisteredAuthenticator ρ}
    (hmanager : k.authenticatorManager type = some impl)
    (haccepts : ∀ ctx, (impl.onAuthenticatorAdded account config (decimal id) ctx).exit = .ok ()) (h : At rows ctx) :
    ReturnsOr Saturated (fun _ c => At (rows.set (k.keyAccountId account id) (.authenticator ⟨id, type, config⟩)) c)
      (k.addAuthenticatorWithId account type config id ctx) := by
  unfold Keeper.addAuthenticatorWithId
  simp only [hmanager]
  refine ReturnsOr.bind (Q := fun _ c => At rows c) (.inl ⟨(), haccepts ctx, h.rows, h.limit⟩) fun _ c hc => ?_
  exact setRow_returns hc _ _

theorem initAuthenticators_returns {account : Bytes} {authenticators : List AccountAuthenticator}
    (haccepts : ∀ a ∈ authenticators, ∃ impl, k.authenticatorManager a.type = some impl ∧
      ∀ ctx, (impl.onAuthenticatorAdded account a.config (decimal a.id) ctx).exit = .ok ()) (h : At rows ctx) :
    ReturnsOr Saturated (fun _ c => At (rows.setRows (authenticators.map fun a => written (k.accString account, a))) c)
      (k.initAuthenticators account authenticators ctx) := by
  have hstart : At (rows.setRows (([] : List AccountAuthenticator).map fun a => written (k.accString account, a)))
      ctx := h
  refine (returnsOr_forEach
    (I := fun done c => At (rows.setRows (done.map fun a => written (k.accString account, a))) c)
    (fun i done c a ha hc => ?_) hstart).bind fun _ c hc => returnsOr_pure hc
  · obtain ⟨impl, hmanager, hexit⟩ := haccepts a ha
    refine ((addAuthenticatorWithId_returns hmanager hexit hc).catchError fun _ _ hsat => ⟨rfl, hsat⟩).imp ?_
    intro _ c' hc'
    rw [map_append, setRows_append]
    exact hc'

theorem setParams_returns {params : Params} (hvalid : k.validParams params = true) (h : At rows ctx) :
    ReturnsOr Saturated (fun _ c => At (rows.set paramsKey (.params params)) c) (k.setParams params ctx) := by
  unfold Keeper.setParams
  rw [hvalid]
  exact setRow_returns h _ _

variable (hexports : Exports k rows gs) (hcodec : k.AddressCodec) (haccepts : k.AcceptsAgain rows)

include hexports hcodec haccepts

theorem account_of_exports {d : AuthenticatorData} (hd : d ∈ gs.authenticatorData) :
    ∃ account, k.accAddressFromBech32 d.address = some account ∧ d.address = k.accString account ∧
      ∀ a ∈ d.authenticators, ∃ impl, k.authenticatorManager a.type = some impl ∧
        ∀ ctx, (impl.onAuthenticatorAdded account a.config (decimal a.id) ctx).exit = .ok () := by
  have hentry : ∀ a ∈ d.authenticators, (d.address, a) ∈ entries gs.authenticatorData := by
    intro a ha
    exact mem_flatMap.mpr ⟨d, hd, mem_map_of_mem ha⟩
  obtain ⟨a₀, ha₀⟩ := exists_mem_of_ne_nil _ (hexports.data d hd)
  obtain ⟨account, haccount, haddr, -⟩ := (hexports.entries _ _).mp (hentry a₀ ha₀)
  have hdecode : k.accAddressFromBech32 d.address = some account := by
    rw [haddr]
    exact (hcodec account haccount).1
  refine ⟨account, hdecode, haddr, fun a ha => ?_⟩
  obtain ⟨account', haccount', haddr', hget⟩ := (hexports.entries _ _).mp (hentry a ha)
  have hdecode' := (hcodec account' haccount').1
  rw [← haddr', hdecode] at hdecode'
  cases hdecode'
  exact haccepts account a haccount hget

theorem initGenesis_returns (hvalid : k.validParams gs.params = true) (h : At .empty ctx) : ReturnsOr Saturated
      (fun _ c => At ((genesisRows gs.params gs.firstId).setRows ((entries gs.authenticatorData).map written)) c)
      (k.initGenesis gs ctx) := by
  refine (setParams_returns hvalid h).bind fun _ c₁ hc₁ => (setRow_returns hc₁ _ _).bind fun _ c₂ hc₂ => ?_
  have hstart : At ((genesisRows gs.params gs.firstId).setRows ((entries []).map written)) c₂ := hc₂
  refine (returnsOr_forEach
    (I := fun done c => At ((genesisRows gs.params gs.firstId).setRows ((entries done).map written)) c)
    (fun i done c d hd hc => ?_) hstart).bind fun _ c hc => returnsOr_pure hc
  obtain ⟨account, hdecode, haddr, hd'⟩ := account_of_exports hexports hcodec haccepts hd
  simp only [hdecode]
  refine (initAuthenticators_returns hd' hc).imp fun _ c' hc' => ?_
  have hentries : (entries (done ++ [d])).map written =
      (entries done).map written ++ d.authenticators.map fun a => written (k.accString account, a) := by
    simp [entries, haddr]
  rwa [hentries, setRows_append]

end imported

/-! ## The round trip -/

section restored

variable {k : Keeper ρ} {rows : KVStore Row} {gs : GenesisState}

theorem validParams_paramsOf (htidy : k.Tidy rows) : k.validParams (paramsOf rows) = true := by
  unfold paramsOf
  split
  · next params hrow => exact (htidy.row _ _ hrow).2
  · rfl

theorem mem_written (hexports : Exports k rows gs) {key : Bytes} {row : Row} :
    (key, row) ∈ (entries gs.authenticatorData).map written ↔ ∃ account a, k.IsAddress account ∧
      key = k.keyAccountId account a.id ∧ row = .authenticator a ∧ rows.get key = some row := by
  rw [mem_map]
  constructor
  · rintro ⟨⟨addr, a⟩, hentry, heq⟩
    cases heq
    obtain ⟨account, haccount, rfl, hget⟩ := (hexports.entries _ _).mp hentry
    exact ⟨account, a, haccount, rfl, rfl, hget⟩
  · rintro ⟨account, a, haccount, rfl, rfl, hget⟩
    exact ⟨(k.accString account, a), (hexports.entries _ _).mpr ⟨account, haccount, rfl, hget⟩, rfl⟩

def importedRows (gs : GenesisState) : KVStore Row :=
  (genesisRows gs.params gs.firstId).setRows ((entries gs.authenticatorData).map written)

theorem get_importedRows (htidy : k.Tidy rows) (hexports : Exports k rows gs) (key : Bytes) :
    (importedRows gs).get (keyAccountAuthenticatorsPrefixId ++ key) =
      rows.get (keyAccountAuthenticatorsPrefixId ++ key) := by
  cases hget : rows.get (keyAccountAuthenticatorsPrefixId ++ key) with
  | some row =>
    obtain ⟨account, a, haccount, rfl, hkey⟩ := htidy.authenticator hget
    refine get_setRows_of_mem ?_ ((mem_written hexports).mpr ⟨account, a, haccount, hkey, rfl, hget⟩)
    rintro ⟨key', row'⟩ hmem rfl
    obtain ⟨_, _, _, _, _, hget'⟩ := (mem_written hexports).mp hmem
    exact Option.some.inj (hget'.symm.trans hget)
  | none =>
    by_contra hne
    obtain ⟨row, hrow⟩ := Option.ne_none_iff_exists'.mp hne
    rcases mem_of_get_setRows hrow with hmem | hgenesis
    · obtain ⟨_, _, _, _, _, hget'⟩ := (mem_written hexports).mp hmem
      cases hget.symm.trans hget'
    · -- the two other rows are no authenticators
      have hvalid : k.validParams gs.params = true := hexports.params ▸ validParams_paramsOf htidy
      obtain ⟨_, _, _, hauthenticator, _⟩ := (tidy_genesisRows hvalid gs.firstId).authenticator hgenesis
      rcases get_genesisRows hgenesis with ⟨-, rfl⟩ | ⟨-, rfl⟩ <;> cases hauthenticator

theorem paramsOf_importedRows (hexports : Exports k rows gs) : paramsOf (importedRows gs) = gs.params := by
  have hget : (importedRows gs).get paramsKey = some (.params gs.params) := by
    rw [importedRows, get_setRows_of_ne, genesisRows, get_set_of_ne _ _ Keeper.paramsKey_ne_counter.symm, get_set_self]
    rintro ⟨key, row⟩ hmem rfl
    obtain ⟨account, a, -, hkey, -⟩ := (mem_written hexports).mp hmem
    exact Keeper.paramsKey_ne_keyAccountId account a.id hkey
  rw [paramsOf, hget]

theorem nextIdOf_importedRows (hexports : Exports k rows gs) : nextIdOf (importedRows gs) = gs.firstId := by
  have hget : (importedRows gs).get keyNextAccountAuthenticatorId = some (.nextId gs.firstId) := by
    rw [importedRows, get_setRows_of_ne, genesisRows, get_set_self]
    rintro ⟨key, row⟩ hmem rfl
    obtain ⟨account, a, -, hkey, -⟩ := (mem_written hexports).mp hmem
    exact Keeper.keyAccountId_ne_counter account a.id hkey.symm
  rw [nextIdOf, hget]

theorem restored_iff (htidy : k.Tidy rows) (hexports : Exports k rows gs) :
    Restored rows (importedRows gs) ↔ nextIdOf rows ≠ 0 := by
  have hfirst : gs.firstId = nextIdOf rows ↔ nextIdOf rows ≠ 0 := by
    rw [GenesisState.firstId, hexports.nextId]
    split_ifs with hzero
    · simp [hzero, Keeper.firstAuthenticatorId]
    · simp [hzero]
  constructor
  · intro h
    rw [← hfirst, ← nextIdOf_importedRows hexports]
    exact h.nextId
  · intro hnext
    refine ⟨get_importedRows htidy hexports, ?_, ?_⟩
    · rw [paramsOf_importedRows hexports, hexports.params]
    · rw [nextIdOf_importedRows hexports, hfirst]
      exact hnext

end restored

namespace Sample

/-- Addresses are the accounts themselves, if they have no separator, and all types are registered. -/
def strictKeeper : Keeper Unit :=
  { keeper with
    accAddressFromBech32 := fun address => if address.contains 0x7c then none else some address
    authenticatorManager := fun type => some (authenticator type signed true) }

theorem strictKeeper_codec : strictKeeper.AddressCodec := by
  rintro account ⟨address, hdecode⟩
  simp only [strictKeeper] at hdecode ⊢
  split_ifs at hdecode with hsep
  obtain rfl := Option.some.inj hdecode
  have hstring : keeper.accString address = address := rfl
  rw [hstring, if_neg hsep]
  exact ⟨rfl, by simpa using hsep⟩

theorem strictKeeper_callbacks : strictKeeper.CallbacksTidy where
  added _ _ h _ _ _ _ htidy := by
    cases h
    exact htidy
  removed _ _ h _ _ _ _ htidy := by
    cases h
    exact htidy

theorem strictKeeper_accepts (rows : KVStore Row) : strictKeeper.AcceptsAgain rows :=
  fun _ a _ _ => ⟨authenticator a.type signed true, rfl, fun _ => rfl⟩

/-- Alice and bob get authenticators, alice removes one of hers, and the module is switched off. -/
def someEvents : List (Event Unit) :=
  [.call (addTo alice), .call (addTo bob), .call (addTo alice), .call (removeFrom alice 1),
    .update emptyStore (.setActiveState false)]

def contextAfter (next : UInt64) (events : List (Event Unit)) : Context Unit :=
  let rows := run strictKeeper.happen (strictKeeper.initGenesis ⟨defaultParams, next, []⟩ emptyStore).2.rows events
  { emptyStore with store := { emptyStore.store with smartAccount := rows } }

end Sample

end SmartAccount
