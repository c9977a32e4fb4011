/-
  The genesis of x/tokenfactory: what an accepted one leaves in the stores.
-/
import TerpCore.TokenFactory.Records

namespace TokenFactory

open Lib Outcome KVStore

variable {β : Type} {k : Keeper β} {codec : Bech32}

/-- A chain before the module's genesis; the bank has its own already. -/
def State.fresh (metadata : List Metadata) (bank : β) : State β := ⟨.empty, initDenomMetaData metadata, bank⟩

theorem base_of_initDenomMetaData {genesis : List Metadata} {d : Bytes} {m : Metadata}
    (h : (initDenomMetaData genesis).get d = some m) : m.base = d := by
  refine List.foldlRecOn (motive := fun s => ∀ d m, s.get d = some m → m.base = d) genesis setDenomMetaData
    (by simp) ?_ d m h
  intro s hs m₀ _ d m hget
  rw [setDenomMetaData, get_set] at hget
  split at hget
  · next hbase => exact Option.some.inj hget ▸ hbase
  · exact hs d m hget

/-! ## Accepted denominations -/

/-- A genesis denomination that passed the validation. -/
def GenesisDenom.Valid (codec : Bech32) (g : GenesisDenom) : Prop :=
  (∃ creator sub, deconstructDenom codec g.denom = .ok (creator, sub)) ∧
    g.authorityMetadata.validate codec = .ok ()

theorem validate_of_isSome {m : DenomAuthorityMetadata}
    (h : (m.admin == [] || (codec.accAddressFromBech32 m.admin).isSome) = true) : m.validate codec = .ok () := by
  unfold DenomAuthorityMetadata.validate
  split
  · rfl
  · next hne => simpa [hne] using h

theorem checkDenoms_valid : ∀ {gs : List GenesisDenom} {seen : List Bytes},
    checkDenoms codec seen gs = .ok () → ∀ g ∈ gs, g.Valid codec
  | [], _, _ => by simp
  | g :: gs, seen, h => by
    obtain ⟨_, -, h⟩ := bind_eq_ok.mp h
    obtain ⟨parts, hparts, h⟩ := bind_eq_ok.mp h
    obtain ⟨_, hadmin, h⟩ := bind_eq_ok.mp h
    rw [List.forall_mem_cons]
    exact ⟨⟨⟨_, _, hparts⟩, validate_of_isSome (require_eq_ok.mp hadmin)⟩, checkDenoms_valid h⟩

variable {gs : GenesisState} {g : GenesisDenom}

theorem GenesisState.valid_of_validate (h : gs.validate codec = .ok ()) :
    gs.params.validate = .ok () ∧ ∀ g ∈ gs.factoryDenoms, g.Valid codec := by
  obtain ⟨_, hparams, hdenoms⟩ := bind_eq_ok.mp h
  exact ⟨hparams, checkDenoms_valid hdenoms⟩

/-! ## What the genesis writes -/

/-- The creator a denomination is read as. -/
def creatorOf (codec : Bech32) (denom : Bytes) : Bytes :=
  match deconstructDenom codec denom with
  | .ok (creator, _) => creator
  | _ => []

def GenesisDenom.rows (codec : Bech32) (g : GenesisDenom) : List (Bytes × Value) :=
  [(creatorKey (creatorOf codec g.denom) g.denom, .denom g.denom),
    (authorityKey g.denom, .authority g.authorityMetadata)]

def State.imported (codec : Bech32) (s : State β) (g : GenesisDenom) : State β :=
  (s.withDenom (creatorOf codec g.denom) g.denom).withAdmin g.denom g.authorityMetadata

theorem validate_creator {denom creator sub : Bytes} (h : deconstructDenom codec denom = .ok (creator, sub)) :
    DenomAuthorityMetadata.validate codec ⟨creator⟩ = .ok () := by
  obtain ⟨-, text, addr, -, -, haddr, rfl⟩ := deconstructDenom_eq_ok h
  unfold DenomAuthorityMetadata.validate
  split
  · rfl
  · rw [codec.reads_string haddr]
    rfl

theorem GenesisDenom.Valid.deconstruct (h : g.Valid codec) :
    ∃ sub, deconstructDenom codec g.denom = .ok (creatorOf codec g.denom, sub) := by
  obtain ⟨⟨creator, sub, hfactory⟩, -⟩ := h
  exact ⟨sub, by rw [creatorOf, hfactory]⟩

theorem initDenom_eq (s : State β) (h : g.Valid k.codec) :
    k.initDenom s g = .ok (s.imported k.codec g) := by
  obtain ⟨sub, hfactory⟩ := h.deconstruct
  simp only [Keeper.initDenom, hfactory, Keeper.createDenomAfterValidation, Keeper.setAuthorityMetadata,
    validate_creator hfactory, h.2, ok_bind]
  rfl

theorem Consistent.imported {s : State β} (hs : Consistent k s) (h : g.Valid k.codec) :
    Consistent k (s.imported k.codec g) := by
  obtain ⟨sub, hfactory⟩ := h.deconstruct
  refine (hs.withDenom hfactory (validate_creator hfactory)).withAdmin ?_ h.2
  rw [recorded_withDenom, if_pos rfl]
  rfl

theorem imported_eq (s : State β) (g : GenesisDenom) : s.imported codec g =
    ⟨s.store.setRows (g.rows codec), s.metadata.set g.denom (newMetadata g.denom), s.bank⟩ := by
  have hstore : (s.imported codec g).store = s.store.setRows (g.rows codec) := by
    ext key
    simp only [State.imported, State.withAdmin, State.withDenom, addDenomFromCreator, GenesisDenom.rows,
      setRows_cons, setRows_nil, get_set]
    split <;> simp_all
  rw [← hstore]
  rfl

theorem foldl_imported_eq (gs : List GenesisDenom) (s : State β) : gs.foldl (State.imported codec) s =
    ⟨s.store.setRows (gs.flatMap (GenesisDenom.rows codec)),
      s.metadata.setRows (gs.map fun g => (g.denom, newMetadata g.denom)), s.bank⟩ := by
  induction gs generalizing s with
  | nil => rfl
  | cons g gs ih =>
    rw [List.foldl_cons, ih, imported_eq, List.flatMap_cons, setRows_append]
    rfl

theorem initGenesis_eq (s : State β) (hparams : gs.params.validate = .ok ())
    (hdenoms : ∀ g ∈ gs.factoryDenoms, g.Valid k.codec) : k.initGenesis s gs =
      .ok ⟨(s.store.set paramsKey (.params gs.params)).setRows
          (gs.factoryDenoms.flatMap (GenesisDenom.rows k.codec)),
        s.metadata.setRows (gs.factoryDenoms.map fun g => (g.denom, newMetadata g.denom)), s.bank⟩ := by
  have hloop := fun t => forEach_eq_foldl (w := State.imported k.codec)
    gs.factoryDenoms 0 t fun _ t g hg => initDenom_eq t (hdenoms g hg)
  rw [Keeper.initGenesis, setParams_of hparams, ok_bind, hloop, foldl_imported_eq]

theorem recorded_setRows (s : KVStore Value) (g : GenesisDenom) (d : Bytes) :
    recorded (s.setRows (g.rows codec)) d = if g.denom = d then some g.authorityMetadata else recorded s d := by
  rw [GenesisDenom.rows, setRows_cons, setRows_cons, setRows_nil, recorded_set_authority, recorded_set_creatorKey]

theorem isSome_recorded_setRows (gs : List GenesisDenom) (s : KVStore Value) (d : Bytes) :
    (recorded (s.setRows (gs.flatMap (GenesisDenom.rows codec))) d).isSome ↔
      d ∈ gs.map GenesisDenom.denom ∨ (recorded s d).isSome := by
  induction gs generalizing s with
  | nil => simp
  | cons g gs ih =>
    rw [List.flatMap_cons, setRows_append, ih, recorded_setRows]
    by_cases hd : g.denom = d
    · simp [hd]
    · simp [hd, Ne.symm hd]

theorem consistent_params (metadata : List Metadata) (bank : β) {p : Params} (hp : p.validate = .ok ()) :
    Consistent k ⟨empty.set paramsKey (.params p), initDenomMetaData metadata, bank⟩ := by
  refine ⟨⟨p, get_set_self .., hp⟩, ?_, ?_, ?_, ?_, ?_, ?_, base_of_initDenomMetaData⟩
  · intro rest v hget
    simp [get_creators_set_paramsKey] at hget
  · intro d hd
    cases hd
  · intro d v hget
    cases hget
  · intro d m hd
    cases hd
  · intro d hd
    cases hd
  · intro d hd
    cases hd

theorem initGenesis_consistent {metadata : List Metadata} {bank : β} {s : State β}
    (hparams : gs.params.validate = .ok ()) (hdenoms : ∀ g ∈ gs.factoryDenoms, g.Valid k.codec)
    (h : k.initGenesis (.fresh metadata bank) gs = .ok s) : Consistent k s := by
  obtain ⟨store, hstore, h⟩ := bind_eq_ok.mp h
  obtain ⟨-, rfl⟩ := setParams_eq_ok hstore
  refine (forEach_rule (I := fun s gs => Consistent k s ∧ ∀ g ∈ gs, g.Valid k.codec) ?_ _ _ _ _ h
    ⟨consistent_params metadata bank hparams, hdenoms⟩).1
  rintro - t g gs t' heq ⟨ht, hvalid⟩
  rw [List.forall_mem_cons] at hvalid
  rw [initDenom_eq t hvalid.1] at heq
  cases heq
  exact ⟨ht.imported hvalid.1, hvalid.2⟩

end TokenFactory
