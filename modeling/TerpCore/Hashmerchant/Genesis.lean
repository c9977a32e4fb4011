/-
  Genesis, and the history of the module from its genesis on.

  A genesis file is taken as decoded.  Contracts reach the store through messages only.
-/
import TerpCore.Hashmerchant.Escrow
import TerpCore.Hashmerchant.Writes

namespace Hashmerchant

open Lib Outcome

variable {β : Type}

/-! ## Genesis -/

/-- The genesis of the module. -/
structure GenesisState where
  params : Params
  registeredChains : List RegisteredChain
  registeredContracts : List RegisteredContract
  escrowRecords : List EscrowRecord
  hashRoots : List HashRoot
  pruneEpoch : UInt64

/-- A genesis file: the state and the table of oracle sources. -/
structure GenesisFile where
  state : GenesisState
  /-- the entries of the map, in the order in which the loop visits them -/
  oracleSources : List (Bytes × List OracleSource) := []

/-- The loop of the validation over the chains; `seen` holds the identifiers met so far. -/
def checkChains (seen : List Bytes) : List RegisteredChain → Outcome Err Unit
  | [] => .ok ()
  | c :: cs => do
    require (c.chainUid != []) .genesisChainUidEmpty
    require (!seen.contains c.chainUid) (.genesisChainTwice c.chainUid)
    checkChains (c.chainUid :: seen) cs

/-- `GenesisState.Validate`, which `InitGenesis` does not call. -/
def GenesisState.validate (gs : GenesisState) : Outcome Err Unit := do
  gs.params.validate
  checkChains [] gs.registeredChains

variable (k : Keeper β)

/-- A chain, and its sources if it has any. -/
def Keeper.initChain (s : Store) (c : RegisteredChain) : Store :=
  let s := setRegisteredChain s c
  if c.oracleSources = [] then s else k.setOracleSources s c.chainUid (c.oracleSources.filterMap id)

/-- `InitGenesis` of the keeper. -/
def Keeper.initGenesis (s : Store) (gs : GenesisState) : Store :=
  let s := setParams s gs.params
  let s := gs.registeredChains.foldl k.initChain s
  let s := gs.registeredContracts.foldl setRegisteredContract s
  let s := gs.escrowRecords.foldl setEscrowRecord s
  let s := gs.hashRoots.foldl setHashRoot s
  setPruneEpoch s gs.pruneEpoch

/-- `InitGenesis` of the module: the keeper's and then the table. -/
def Keeper.initModule (s : Store) (file : GenesisFile) : Store :=
  file.oracleSources.foldl (fun s e => k.setOracleSources s e.1 e.2) (k.initGenesis s file.state)

/-- The chains `IterateRegisteredChains` visits. -/
def registeredChains (s : Store) : List RegisteredChain :=
  (s.iterator keyPrefixRegisteredChains).filterMap fun
    | (_, .chain c) => some c
    | _ => none

/-- The roots `iterateAllHashRoots` visits. -/
def allHashRoots (s : Store) : List HashRoot :=
  (s.iterator keyPrefixHashRoots).filterMap fun
    | (_, .hashRoot r) => some r
    | _ => none

/-- `types.Params{}`. -/
def zeroParams : Params := ⟨⟨0⟩, 0, [], 0, 0, 0⟩

/-- An error of `GetParams` is dropped; a prune epoch that does not decode panics. -/
def exportGenesis (s : Store) : Outcome Err GenesisState := do
  let params := match getParams s with
    | .ok params => params
    | _ => zeroParams
  let pruneEpoch ← getPruneEpoch s
  return {
    params := params
    registeredChains := registeredChains s
    registeredContracts := registeredContracts s
    escrowRecords := escrowRecords s
    hashRoots := allHashRoots s
    pruneEpoch := pruneEpoch }

/-! ## Histories -/

/-- What happens to the module: a message, the end of a block, or the pre-block step of one. -/
inductive Event where
  | op (op : Op)
  | updateParams (msg : MsgUpdateParams)
  | preBlock (o : TallyOrder) (blockHeight : UInt64) (txs : List Bytes)

/-- What an event does. -/
def Keeper.happen (s : State β) : Event → Outcome Err (State β)
  | .op op => k.exec s op
  | .updateParams msg => do
    msg.validateBasic k
    k.updateParams s msg
  | .preBlock o blockHeight txs => do
    let (s, _, _) ← k.processInjectedVoteExtension o blockHeight s txs
    return s

/-- An event that fails changes nothing. -/
def Keeper.advance (s : State β) (e : Event) : State β := (k.happen s e).orElse s

/-! ## Rows under their own keys -/

/-- The record stands under the key that is made of it. -/
def Value.Keyed : Value → Bytes → Prop
  | .params _, key => key = keyPrefixParams
  | .chain c, key => key = keyRegisteredChain c.chainUid
  | .contract c, key => key = keyRegisteredContract c.contractAddr
  | .escrow r, key => key = keyEscrow r.contractAddr
  | .hashRoot r, key => key = keyHashRoot r.chainUid r.algo
  | .raw _, key => ∃ chainUID, key = oracleSourcesKey chainUID

/-- Every record of the store stands under its own key. -/
def WellKeyed (s : Store) : Prop := ∀ key v, s.get key = some v → v.Keyed key

theorem wellKeyed_empty : WellKeyed .empty := by
  intro key v h
  cases h

variable {s : Store}

theorem WellKeyed.set (hs : WellKeyed s) {key : Bytes} {v : Value} (hv : v.Keyed key) : WellKeyed (s.set key v) := by
  intro key' v' h
  rw [KVStore.get_set] at h
  split_ifs at h with hkey
  · rw [← hkey, ← Option.some.inj h]
    exact hv
  · exact hs key' v' h

/-- A contract writes rows of the module under their own keys, if at all. -/
def SudoKeyed (k : Keeper β) : Prop :=
  ∀ s contract payload limit s', k.wasmSudo s contract payload limit = .ok s' →
    WellKeyed s.store → WellKeyed s'.store

theorem WellKeyed.foldl {α : Type} {f : Store → α → Store}
    (hf : ∀ s a, WellKeyed s → WellKeyed (f s a)) : ∀ (l : List α) {s : Store},
    WellKeyed s → WellKeyed (l.foldl f s)
  | [], _, hs => hs
  | a :: l, s, hs => WellKeyed.foldl hf l (hf s a hs)

theorem wellKeyed_setPruneEpoch (hs : WellKeyed s) (height : UInt64) : WellKeyed (setPruneEpoch s height) :=
  hs.set ⟨[], rfl⟩

theorem wellKeyed_setOracleSources (hs : WellKeyed s) (chainUID : Bytes) (sources : List OracleSource) :
    WellKeyed (k.setOracleSources s chainUID sources) :=
  hs.set ⟨chainUID, rfl⟩

variable {k}

theorem wellKeyed_initModule (hs : WellKeyed s) (file : GenesisFile) : WellKeyed (k.initModule s file) := by
  refine WellKeyed.foldl (fun s e hs => wellKeyed_setOracleSources k hs e.1 e.2) _ ?_
  refine wellKeyed_setPruneEpoch (.foldl (fun s r hs => hs.set (v := .hashRoot r) rfl) _
    (.foldl (fun s r hs => hs.set (v := .escrow r) rfl) _
      (.foldl (fun s c hs => hs.set (v := .contract c) rfl) _
        (.foldl (fun s c hs => ?_) _ (hs.set (v := .params _) rfl))))) _
  have hchain : WellKeyed (setRegisteredChain s c) := hs.set rfl
  unfold Keeper.initChain
  split_ifs
  · exact hchain
  · exact wellKeyed_setOracleSources k hchain _ _

theorem wellKeyed_endBlocker {blockHeight : UInt64} {s' : Store} (hs : WellKeyed s)
    (h : endBlocker blockHeight s = .ok s') : WellKeyed s' := by
  simp only [endBlocker, bind_eq_ok] at h
  obtain ⟨params, -, lastPrune, -, h⟩ := h
  split_ifs at h with hdue
  · cases h
    refine wellKeyed_setPruneEpoch (.foldl (fun s addr hs => ?_) _ hs) _
    unfold disableContract
    split
    · exact hs.set rfl
    · exact hs
  · rwa [← ok.inj h]

theorem wellKeyed_exec {s s' : State β} {op : Op} (hs : WellKeyed s.store) (h : k.exec s op = .ok s') :
    WellKeyed s'.store := by
  cases op with
  | registerChain msg =>
    obtain ⟨-, -, h⟩ := bind_eq_ok.mp h
    simp only [Keeper.registerChain, bind_eq_ok] at h
    obtain ⟨-, -, -, -, h⟩ := h
    cases h
    exact hs.set rfl
  | registerContract =>
    obtain ⟨-, -, h⟩ := bind_eq_ok.mp h
    obtain ⟨params, app, blocks, -, -, -, -, rfl⟩ := registerContract_eq_ok h
    exact WellKeyed.set (hs.set (v := .contract _) rfl) rfl
  | refillEscrow msg =>
    obtain ⟨-, -, h⟩ := bind_eq_ok.mp h
    obtain ⟨record, params, app, blocks, -, -, -, -, -, -, rfl⟩ := refillEscrow_eq_ok h
    exact hs.set rfl
  | endBlock blockHeight =>
    obtain ⟨store, hstore, h⟩ := bind_eq_ok.mp h
    cases h
    exact wellKeyed_endBlocker hs hstore

section callbacks

variable (hsudo : SudoKeyed k)
include hsudo

theorem wellKeyed_dispatchTo {blockHeight limit : UInt64} {root : HashRoot}
    {atts : List OracleAttestation} {s s' : State β} {c : RegisteredContract} {es : List Effect}
    (h : k.dispatchTo blockHeight limit root atts s c = .ok (s', es)) (hs : WellKeyed s.store) :
    WellKeyed s'.store := by
  unfold Keeper.dispatchTo at h
  split_ifs at h with hskip
  · cases h
    exact hs
  split at h
  · split_ifs at h with hpaid
    · cases h
      exact hs
    split at h
    · cases h
      exact hs
    · obtain ⟨s₁, hcall, h⟩ := bind_eq_ok.mp h
      cases h
      unfold Keeper.sudoBounded at hcall
      split at hcall
      · next s₂ hok =>
        cases hcall
        exact hsudo _ _ _ _ _ hok hs
      · exact ok.inj hcall ▸ hs
      · exact ok.inj hcall ▸ hs
      · cases hcall
  · cases h
    exact hs

theorem wellKeyed_dispatchEach {blockHeight limit : UInt64} {root : HashRoot}
    {atts : List OracleAttestation} : ∀ {cs : List RegisteredContract} {s s' : State β}
    {es : List Effect}, k.dispatchEach blockHeight limit root atts s cs = .ok (s', es) →
    WellKeyed s.store → WellKeyed s'.store
  | [], s, s', es, h, hs => by
    cases h
    exact hs
  | c :: cs, s, s', es, h, hs => by
    obtain ⟨⟨s₁, es₁⟩, h₁, h⟩ := bind_eq_ok.mp h
    obtain ⟨⟨s₂, es₂⟩, h₂, h⟩ := bind_eq_ok.mp h
    cases h
    exact wellKeyed_dispatchEach h₂ (wellKeyed_dispatchTo hsudo h₁ hs)

theorem wellKeyed_writeWinners {blockHeight : UInt64} : ∀ {ws : List Winner} {s s' : State β}
    {es : List Effect}, k.writeWinners blockHeight s ws = .ok (s', es) →
    WellKeyed s.store → WellKeyed s'.store
  | [], s, s', es, h, hs => by
    cases h
    exact hs
  | w :: ws, s, s', es, h, hs => by
    obtain ⟨⟨s₁, es₁⟩, h₁, h⟩ := bind_eq_ok.mp h
    obtain ⟨⟨s₂, es₂⟩, h₂, h⟩ := bind_eq_ok.mp h
    cases h
    refine wellKeyed_writeWinners h₂ ?_
    unfold Keeper.writeWinner at h₁
    split at h₁
    · cases h₁
    · obtain ⟨⟨s₃, calls⟩, h₃, h₁⟩ := bind_eq_ok.mp h₁
      cases h₁
      exact wellKeyed_dispatchEach hsudo h₃ (hs.set rfl)

theorem wellKeyed_happen {s s' : State β} {e : Event} (hs : WellKeyed s.store)
    (h : k.happen s e = .ok s') : WellKeyed s'.store := by
  cases e with
  | op op => exact wellKeyed_exec hs h
  | updateParams msg =>
    obtain ⟨-, -, h⟩ := bind_eq_ok.mp h
    simp only [Keeper.updateParams, bind_eq_ok] at h
    obtain ⟨-, -, -, -, h⟩ := h
    cases h
    exact hs.set rfl
  | preBlock =>
    obtain ⟨⟨s₁, es, done⟩, hprocess, h⟩ := bind_eq_ok.mp h
    cases h
    unfold Keeper.processInjectedVoteExtension at hprocess
    split at hprocess
    · cases hprocess
      exact hs
    split at hprocess
    · next s₂ es₂ hvotes =>
      cases hprocess
      obtain ⟨params, threshold, -, -, hws⟩ := processVoteExtensions_eq_ok.mp hvotes
      exact wellKeyed_writeWinners hsudo hws hs
    · cases hprocess
      exact hs
    · cases hprocess

theorem run_wellKeyed (file : GenesisFile) (app : β) (events : List Event) :
    WellKeyed (run k.advance ⟨k.initModule .empty file, app⟩ events).store := by
  refine run_preserves (I := fun s : State β => WellKeyed s.store) ?_ _ events
    (wellKeyed_initModule wellKeyed_empty file)
  intro s e hs
  exact orElse_elim (P := fun t : State β => WellKeyed t.store) hs fun _ h => wellKeyed_happen hsudo hs h

end callbacks

end Hashmerchant
