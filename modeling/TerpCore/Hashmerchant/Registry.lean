/-
  The sources that authenticate, and the sources that are registered.

  A genesis writes both, the message `RegisterChain` only the record.
-/
import TerpCore.Hashmerchant.RoundTrip

namespace Hashmerchant

open Lib Outcome KVStore List

variable {β : Type} {k : Keeper β}

/-! ## Verification against a list of sources -/

/-- The ed25519 authenticator of a source verifies the custody signature of an attestation. -/
def Authenticates (k : Keeper β) (src : OracleSource) (att : OracleAttestation) : Prop :=
  ∃ auth, src.authenticator = some auth ∧ auth.algorithm = ascii "ed25519" ∧ auth.pubkey.length = 32 ∧
    k.ed25519Verify auth.pubkey
      (k.custodyPayload auth.scope att.sourceId att.value att.height att.timestamp)
      att.custodySignature = true

def enabledOf (sources : List OracleSource) : List OracleSource := sources.filter OracleSource.enabled

theorem verifyAttestation_eq_ok {sources : List OracleSource} {att : OracleAttestation} :
    k.verifyAttestation sources att = .ok () ↔
      ∃ src, findOracleSource sources att.sourceId = some src ∧ Authenticates k src att := by
  unfold Keeper.verifyAttestation Authenticates
  cases findOracleSource sources att.sourceId with
  | none => simp
  | some src =>
    cases hauth : src.authenticator with
    | none => simp [hauth]
    | some auth => simp [hauth, bind_eq_ok]

theorem findOracleSource_eq_some {sources : List OracleSource}
    (hnodup : ((enabledOf sources).map OracleSource.sourceId).Nodup) {sourceID : Bytes}
    {src : OracleSource} :
    findOracleSource sources sourceID = some src ↔ src ∈ enabledOf sources ∧ src.sourceId = sourceID := by
  have hmem : ∀ {x}, findOracleSource sources sourceID = some x → x ∈ enabledOf sources ∧ x.sourceId = sourceID := by
    intro x hx
    have hfound : x.sourceId = sourceID ∧ x.enabled = true := by simpa using List.find?_some hx
    exact ⟨mem_filter.mpr ⟨mem_of_find?_eq_some hx, hfound.2⟩, hfound.1⟩
  constructor
  · exact hmem
  · rintro ⟨hsrc, rfl⟩
    obtain ⟨hin, hen⟩ := mem_filter.mp hsrc
    cases hfind : findOracleSource sources src.sourceId with
    | none => simpa [hen] using List.find?_eq_none.mp hfind src hin
    | some x =>
      obtain ⟨hx, hid⟩ := hmem hfind
      rw [inj_on_of_nodup_map hnodup hx hsrc hid]

theorem verifyEach_eq_ok {sources : List OracleSource} {atts : List OracleAttestation} :
    k.verifyEach sources atts = .ok () ↔ ∀ att ∈ atts, k.verifyAttestation sources att = .ok () := by
  induction atts with
  | nil => simp [Keeper.verifyEach]
  | cons att atts ih =>
    simp only [Keeper.verifyEach, bind_eq_ok, forall_mem_cons, ih]
    constructor
    · rintro ⟨_, h, hs⟩
      exact ⟨h, hs⟩
    · rintro ⟨h, hs⟩
      exact ⟨(), h, hs⟩

/-! ## The table and the registry -/

def Keeper.tabled (k : Keeper β) (s : Store) (chainUID : Bytes) : List OracleSource :=
  match k.getOracleSources s chainUID with
  | .ok sources => enabledOf sources
  | _ => []

def RegisteredChain.signers (c : RegisteredChain) : List OracleSource :=
  enabledOf (c.oracleSources.filterMap id)

def registered (s : Store) (chainUID : Bytes) : List OracleSource :=
  match getRegisteredChain s chainUID with
  | .ok c => c.signers
  | _ => []

/-- An attestation names an enabled source of the chain's record whose authenticator verifies it. -/
def RegisteredSigner (k : Keeper β) (s : Store) (chainUID : Bytes) (att : OracleAttestation) : Prop :=
  ∃ c, getRegisteredChain s chainUID = .ok c ∧ ∃ src, some src ∈ c.oracleSources ∧
    src.enabled = true ∧ src.sourceId = att.sourceId ∧ Authenticates k src att

theorem registeredSigner_iff {s : Store} {chainUID : Bytes} {att : OracleAttestation} :
    RegisteredSigner k s chainUID att ↔
      ∃ src ∈ registered s chainUID, src.sourceId = att.sourceId ∧ Authenticates k src att := by
  unfold RegisteredSigner registered
  cases getRegisteredChain s chainUID with
  | ok c =>
    simp only [ok.injEq, exists_eq_left', RegisteredChain.signers, enabledOf, mem_filter,
      mem_filterMap, id, exists_eq_right, and_assoc]
  | error | panicked => simp

/-- The table has the enabled sources of the registry, under distinct identifiers. -/
structure Agree (k : Keeper β) (s : Store) : Prop where
  keyed : WellKeyed s
  same : ∀ chainUID, k.tabled s chainUID = registered s chainUID
  distinct : ∀ chainUID, ((registered s chainUID).map OracleSource.sourceId).Nodup

theorem Agree.verifies_iff {s : Store} (h : Agree k s) (chainUID : Bytes) (atts : List OracleAttestation) :
    k.verifyOracleAttestations s chainUID atts = .ok () ↔ ∀ att ∈ atts, RegisteredSigner k s chainUID att := by
  obtain ⟨params, hparams⟩ := exists_params h.keyed
  have hsame := h.same chainUID
  have hdistinct := h.distinct chainUID
  simp only [registeredSigner_iff, ← hsame] at hdistinct ⊢
  unfold Keeper.verifyOracleAttestations
  by_cases hnil : atts = []
  · simp [hnil]
  obtain ⟨att, hatt⟩ := exists_mem_of_ne_nil atts hnil
  cases hsources : k.getOracleSources s chainUID with
  | ok sources =>
    simp only [Keeper.tabled, hsources] at hdistinct ⊢
    simp only [if_neg hnil, hparams, ok_bind, verifyEach_eq_ok, verifyAttestation_eq_ok,
      findOracleSource_eq_some hdistinct, and_assoc]
  | error e =>
    simp only [Keeper.tabled, hsources, if_neg hnil]
    exact ⟨nofun, fun hall => by simpa using hall att hatt⟩
  | panicked =>
    simp only [Keeper.tabled, hsources, if_neg hnil]
    exact ⟨nofun, fun hall => by simpa using hall att hatt⟩

/-! ## Genesis -/

theorem checkChains_eq_ok : ∀ {chains : List RegisteredChain} {seen : List Bytes},
    checkChains seen chains = .ok () → (chains.map RegisteredChain.chainUid).Nodup ∧
      ∀ c ∈ chains, c.chainUid ≠ [] ∧ c.chainUid ∉ seen
  | [], _, _ => by simp
  | c :: chains, seen, h => by
    simp only [checkChains, bind_eq_ok, require_eq_ok, bne_iff_ne, Bool.not_eq_true',
      contains_eq_mem, decide_eq_false_iff_not] at h
    obtain ⟨-, hne, -, hnew, h⟩ := h
    obtain ⟨hnodup, hall⟩ := checkChains_eq_ok h
    refine ⟨nodup_cons.mpr ⟨fun hmem => ?_, hnodup⟩, fun c' hc' => ?_⟩
    · obtain ⟨c', hc', heq⟩ := mem_map.mp hmem
      exact (hall c' hc').2 (by rw [heq]; exact mem_cons_self ..)
    · rcases mem_cons.mp hc' with rfl | hc'
      · exact ⟨hne, hnew⟩
      · exact ⟨(hall c' hc').1, fun hmem => (hall c' hc').2 (mem_cons_of_mem _ hmem)⟩

/-- A genesis whose table of sources is that of its chains: no map of sources in the file, chains with identifiers of
their own, and sources that survive being stored as JSON.  The bytes of a prune epoch are no list with an enabled
source. -/
structure PlainGenesis (k : Keeper β) (file : GenesisFile) : Prop where
  noMap : file.oracleSources = []
  chains : checkChains [] file.state.registeredChains = .ok ()
  stored : ∀ c ∈ file.state.registeredChains, c.oracleSources ≠ [] →
    k.unmarshalSources (k.marshalSources (c.oracleSources.filterMap id)) =
      some (c.oracleSources.filterMap id)
  distinct : ∀ c ∈ file.state.registeredChains, (c.signers.map OracleSource.sourceId).Nodup
  epoch : ∀ sources, k.unmarshalSources (be64 file.state.pruneEpoch) = some sources → enabledOf sources = []

section genesis

variable {gs : GenesisState}

theorem mem_chainRows {key : Bytes} {v : Value} (hmem : (key, v) ∈ k.genesisRows gs) :
    (∃ c ∈ gs.registeredChains, (key, v) = (keyRegisteredChain c.chainUid, .chain c) ∨
      c.oracleSources ≠ [] ∧
        (key, v) = (oracleSourcesKey c.chainUid, .raw (k.marshalSources (c.oracleSources.filterMap id)))) ∨
    ∀ chainUID, key ≠ keyRegisteredChain chainUID ∧ key ≠ oracleSourcesKey chainUID := by
  simp only [Keeper.genesisRows, mem_cons, mem_append, mem_flatMap, mem_map] at hmem
  rcases hmem with hrow | ((⟨c, hc, hrow⟩ | ⟨c, hc, hrow⟩) | ⟨r, hr, hrow⟩) | ⟨r, hr, hrow⟩
  · cases hrow
    exact .inr fun _ => ⟨by rintro ⟨⟩, by rintro ⟨⟩⟩
  · refine .inl ⟨c, hc, ?_⟩
    rcases mem_cons.mp hrow with hrow | hrow
    · exact .inl hrow
    · split_ifs at hrow with hnil
      · cases hrow
      · exact Or.inr ⟨hnil, mem_singleton.mp hrow⟩
  · cases hrow
    exact .inr fun _ => ⟨by rintro ⟨⟩, by rintro ⟨⟩⟩
  · cases hrow
    exact .inr fun _ => ⟨by rintro ⟨⟩, by rintro ⟨⟩⟩
  · cases hrow
    exact .inr fun _ => ⟨by rintro ⟨⟩, by rintro ⟨⟩⟩

variable (hchains : checkChains [] gs.registeredChains = .ok ())
include hchains

theorem get_initGenesis_of_mem {c : RegisteredChain} (hc : c ∈ gs.registeredChains) :
    (k.initGenesis .empty gs).get (keyRegisteredChain c.chainUid) = some (.chain c) ∧
      (k.initGenesis .empty gs).get (oracleSourcesKey c.chainUid) =
        if c.oracleSources = [] then none
        else some (.raw (k.marshalSources (c.oracleSources.filterMap id))) := by
  obtain ⟨hnodup, hall⟩ := checkChains_eq_ok hchains
  have hsame : ∀ c' ∈ gs.registeredChains, c'.chainUid = c.chainUid → c' = c :=
    fun c' hc' heq => inj_on_of_nodup_map hnodup hc' hc heq
  have hrows : ∀ {r}, r ∈ k.chainRows c → r ∈ k.genesisRows gs := fun hr =>
    mem_cons_of_mem _ (mem_append_left _ (mem_append_left _ (mem_append_left _
      (mem_flatMap.mpr ⟨c, hc, hr⟩))))
  have hepoch : keyPrefixPruneEpoch ≠ oracleSourcesKey c.chainUid := by
    simpa [keyPrefixPruneEpoch, oracleSourcesKey, oracleSourcesKeyPrefix] using (hall c hc).1.symm
  rw [initGenesis_eq, setPruneEpoch, get_set_of_ne _ _ hepoch,
    get_set_of_ne _ _ (show keyPrefixPruneEpoch ≠ keyRegisteredChain c.chainUid by rintro ⟨⟩)]
  -- a row under one of the two keys is a row of this chain
  have hchain : ∀ r ∈ k.genesisRows gs, r.1 = keyRegisteredChain c.chainUid → r.2 = .chain c := by
    rintro ⟨key, v⟩ hr rfl
    rcases mem_chainRows hr with ⟨c', hc', hrow | ⟨-, hrow⟩⟩ | hother
    · obtain ⟨hkey, rfl⟩ := Prod.mk.inj hrow
      rw [hsame c' hc' (by simpa [keyRegisteredChain] using hkey.symm)]
    · cases (Prod.mk.inj hrow).1
    · exact absurd rfl (hother _).1
  have hsources : ∀ r ∈ k.genesisRows gs, r.1 = oracleSourcesKey c.chainUid →
      c.oracleSources ≠ [] ∧ r.2 = .raw (k.marshalSources (c.oracleSources.filterMap id)) := by
    rintro ⟨key, v⟩ hr rfl
    rcases mem_chainRows hr with ⟨c', hc', hrow | ⟨hnil, hrow⟩⟩ | hother
    · cases (Prod.mk.inj hrow).1
    · obtain ⟨hkey, rfl⟩ := Prod.mk.inj hrow
      obtain rfl := hsame c' hc' (by simpa [oracleSourcesKey] using hkey.symm)
      exact ⟨hnil, rfl⟩
    · exact absurd rfl (hother _).2
  refine ⟨get_setRows_of_mem hchain (hrows (mem_cons_self ..)), ?_⟩
  split_ifs with hnil
  · rw [get_setRows_of_ne, get_empty]
    exact fun r hr heq => (hsources r hr heq).1 hnil
  · exact get_setRows_of_mem (fun r hr heq => (hsources r hr heq).2) (hrows (by simp [Keeper.chainRows, hnil]))

omit hchains in
theorem get_initGenesis_of_not_mem {chainUID : Bytes} (hnone : ∀ c ∈ gs.registeredChains, c.chainUid ≠ chainUID) :
    (k.initGenesis .empty gs).get (keyRegisteredChain chainUID) = none ∧
      (chainUID ≠ [] → (k.initGenesis .empty gs).get (oracleSourcesKey chainUID) = none) := by
  have hrows : ∀ r ∈ k.genesisRows gs, r.1 ≠ keyRegisteredChain chainUID ∧ r.1 ≠ oracleSourcesKey chainUID := by
    rintro ⟨key, v⟩ hr
    rcases mem_chainRows hr with ⟨c, hc, hrow | ⟨-, hrow⟩⟩ | hother
    · cases hrow
      exact ⟨by simpa [keyRegisteredChain] using hnone c hc, by rintro ⟨⟩⟩
    · cases hrow
      exact ⟨by rintro ⟨⟩, by simpa [oracleSourcesKey] using hnone c hc⟩
    · exact hother chainUID
  rw [initGenesis_eq, setPruneEpoch]
  constructor
  · rw [get_set_of_ne _ _ (show keyPrefixPruneEpoch ≠ keyRegisteredChain chainUID by rintro ⟨⟩),
      get_setRows_of_ne fun r hr => (hrows r hr).1, get_empty]
  · intro hne
    have hepoch : keyPrefixPruneEpoch ≠ oracleSourcesKey chainUID := by
      simpa [keyPrefixPruneEpoch, oracleSourcesKey, oracleSourcesKeyPrefix] using hne.symm
    rw [get_set_of_ne _ _ hepoch, get_setRows_of_ne fun r hr => (hrows r hr).2, get_empty]

end genesis

theorem agree_initModule {file : GenesisFile} (h : PlainGenesis k file) : Agree k (k.initModule .empty file) := by
  have hkeyed : WellKeyed (k.initModule .empty file) := wellKeyed_initModule wellKeyed_empty file
  have hinit : k.initModule .empty file = k.initGenesis .empty file.state := by
    rw [Keeper.initModule, h.noMap, foldl_nil]
  rw [hinit] at hkeyed ⊢
  have hcases : ∀ chainUID, (∃ c ∈ file.state.registeredChains, c.chainUid = chainUID) ∨
      ∀ c ∈ file.state.registeredChains, c.chainUid ≠ chainUID := by
    intro chainUID
    by_cases hex : ∃ c ∈ file.state.registeredChains, c.chainUid = chainUID
    · exact .inl hex
    · exact .inr fun c hc heq => hex ⟨c, hc, heq⟩
  have hempty : ∀ chainUID, (∀ c ∈ file.state.registeredChains, c.chainUid ≠ chainUID) →
      registered (k.initGenesis .empty file.state) chainUID = [] := by
    intro chainUID hnone
    rw [registered, getRegisteredChain, (get_initGenesis_of_not_mem hnone).1]
  refine ⟨hkeyed, fun chainUID => ?_, fun chainUID => ?_⟩
  · rcases hcases chainUID with ⟨c, hc, rfl⟩ | hnone
    · obtain ⟨hchain, hsources⟩ := get_initGenesis_of_mem h.chains hc
      rw [Keeper.tabled, registered, getRegisteredChain, hchain, Keeper.getOracleSources, hsources]
      by_cases hnil : c.oracleSources = []
      · simp [hnil, RegisteredChain.signers]
      · simp only [if_neg hnil, h.stored c hc hnil]
        rfl
    · rw [hempty chainUID hnone, Keeper.tabled, Keeper.getOracleSources]
      by_cases hne : chainUID = []
      · have hget : (k.initGenesis .empty file.state).get (oracleSourcesKey []) =
            some (.raw (be64 file.state.pruneEpoch)) := by
          exact get_set_self _ _ _
        rw [hne, hget]
        cases hdecode : k.unmarshalSources (be64 file.state.pruneEpoch) with
        | none => simp only [hdecode]
        | some sources => simp only [hdecode, h.epoch sources hdecode]
      · rw [(get_initGenesis_of_not_mem hnone).2 hne]
        rfl
  · rcases hcases chainUID with ⟨c, hc, rfl⟩ | hnone
    · rw [registered, getRegisteredChain, (get_initGenesis_of_mem h.chains hc).1]
      exact h.distinct c hc
    · rw [hempty chainUID hnone]
      exact nodup_nil

/-! ## Registrations -/

theorem agree_registerChain {s s' : State β} {msg : MsgRegisterChain} (hs : Agree k s.store)
    (hmsg : msg.chain.signers = []) (h : k.exec s (.registerChain msg) = .ok s') : Agree k s'.store := by
  have hkeyed := wellKeyed_exec hs.keyed h
  obtain ⟨-, -, h⟩ := bind_eq_ok.mp h
  simp only [Keeper.registerChain, bind_eq_ok, require_eq_ok] at h
  obtain ⟨-, -, -, hnew, h⟩ := h
  cases h
  have htabled : ∀ chainUID, k.tabled (setRegisteredChain s.store msg.chain) chainUID = k.tabled s.store chainUID := by
    intro chainUID
    simp only [Keeper.tabled, Keeper.getOracleSources, setRegisteredChain]
    rw [get_set_of_ne _ _ (show keyRegisteredChain msg.chain.chainUid ≠ oracleSourcesKey chainUID by rintro ⟨⟩)]
  have hreg : ∀ chainUID, registered (setRegisteredChain s.store msg.chain) chainUID = registered s.store chainUID := by
    intro chainUID
    by_cases heq : msg.chain.chainUid = chainUID
    · subst heq
      have hold : s.store.get (keyRegisteredChain msg.chain.chainUid) = none := by
        simpa [hasRegisteredChain, has] using hnew
      simp only [registered, getRegisteredChain, setRegisteredChain, get_set_self, hold, hmsg]
    · have hne : keyRegisteredChain msg.chain.chainUid ≠ keyRegisteredChain chainUID := by
        simpa [keyRegisteredChain] using heq
      simp only [registered, getRegisteredChain, setRegisteredChain]
      rw [get_set_of_ne _ _ hne]
  refine ⟨hkeyed, fun chainUID => ?_, fun chainUID => ?_⟩
  · rw [htabled, hreg, hs.same]
  · rw [hreg]
    exact hs.distinct chainUID

/-- After a plain genesis and registrations of chains without enabled sources, attestations verify exactly
if they are signed by the registered sources. -/
theorem verifies_iff_registered {file : GenesisFile} (hfile : PlainGenesis k file) (app : β)
    (msgs : List MsgRegisterChain) (hmsgs : ∀ msg ∈ msgs, msg.chain.signers = []) (chainUID : Bytes)
    (atts : List OracleAttestation) :
    k.verifyOracleAttestations (run k.step ⟨k.initModule .empty file, app⟩
        (msgs.map .registerChain)).store chainUID atts = .ok () ↔
      ∀ att ∈ atts, RegisteredSigner k (run k.step ⟨k.initModule .empty file, app⟩
        (msgs.map .registerChain)).store chainUID att := by
  refine Agree.verifies_iff (run_invariant (C := fun _ op => ∃ msg : MsgRegisterChain,
    msg.chain.signers = [] ∧ op = .registerChain msg) (I := fun s : State β => Agree k s.store) ?_ _ _
    (.of_mem ?_ _) (agree_initModule hfile)) chainUID atts
  · rintro s - hs ⟨msg, hmsg, rfl⟩
    exact orElse_elim (P := fun t : State β => Agree k t.store) hs fun _ h => agree_registerChain hs hmsg h
  · intro op hop
    obtain ⟨msg, hmem, rfl⟩ := mem_map.mp hop
    exact ⟨msg, hmsgs msg hmem, rfl⟩

/-- An attestation signed by the source of a registered chain is refused. -/
theorem registered_signer_refused :
    let s := (run registryKeeper.step ⟨registryKeeper.initModule .empty (chainsGenesis []), ()⟩
      [registerSampleChain]).store
    RegisteredSigner registryKeeper s (ascii "c") sampleAttestation ∧
      registryKeeper.verifyOracleAttestations s (ascii "c") [sampleAttestation] =
        .error (.unregisteredSource (ascii "s")) := by
  refine ⟨⟨sampleChain, by decide, sampleSource, mem_singleton.mpr rfl, rfl, rfl, ?_⟩, by decide⟩
  exact ⟨_, rfl, by decide, by decide, by decide⟩

/-- The source of a chain of the genesis authenticates, before and after another chain is registered. -/
theorem genesis_signer_verifies :
    PlainGenesis registryKeeper (chainsGenesis [sampleChain]) ∧
      registryKeeper.verifyOracleAttestations (run registryKeeper.step
        ⟨registryKeeper.initModule .empty (chainsGenesis [sampleChain]), ()⟩
        ([⟨sampleSender, ⟨ascii "d", [], [], [], true, []⟩⟩].map .registerChain)).store (ascii "c")
        [sampleAttestation] = .ok () := by
  have hplain : PlainGenesis registryKeeper (chainsGenesis [sampleChain]) := by
    refine ⟨rfl, by decide, ?_, ?_, ?_⟩
    · intro c hc _
      rw [mem_singleton.mp hc]
      decide
    · intro c hc
      rw [mem_singleton.mp hc]
      decide
    · intro sources h
      have hnone : registryKeeper.unmarshalSources (be64 0) = none := by decide
      cases hnone.symm.trans h
  refine ⟨hplain, (verifies_iff_registered hplain () _ (by decide) _ _).mpr ?_⟩
  intro att hatt
  rw [List.mem_singleton.mp hatt]
  exact ⟨sampleChain, by decide, sampleSource, mem_singleton.mpr rfl, rfl, rfl, _, rfl, by decide, by decide, by decide⟩

end Hashmerchant
