/-
  What a message does, and how the three records of a denomination hang together.
-/
import TerpCore.TokenFactory.Keeper

namespace TokenFactory

open Lib Outcome KVStore

variable {β : Type} {k : Keeper β}

/-! ## The admin row -/

/-- The row of a denomination's admin, if there is one: the denomination has been created. -/
def recorded (s : KVStore Value) (denom : Bytes) : Option DenomAuthorityMetadata :=
  match s.get (authorityKey denom) with
  | some (.authority m) => some m
  | _ => none

variable {denom sender : Bytes} {m : DenomAuthorityMetadata} {s s' : State β}

theorem recorded_eq_some {s : KVStore Value} :
    recorded s denom = some m ↔ s.get (authorityKey denom) = some (.authority m) := by
  unfold recorded
  rcases s.get (authorityKey denom) with _ | _ | _ | _ <;> simp

section writes

variable (s : KVStore Value)

theorem recorded_set_authority (d d' : Bytes) (m : DenomAuthorityMetadata) :
    recorded (s.set (authorityKey d) (.authority m)) d' = if d = d' then some m else recorded s d' := by
  by_cases hd : d = d'
  · rw [if_pos hd, hd, recorded, get_set_self]
  · rw [if_neg hd, recorded, get_set_of_ne s _ fun h => hd (authorityKey_injective h), ← recorded]

@[simp] theorem recorded_set_creatorKey (c d d' : Bytes) (v : Value) :
    recorded (s.set (creatorKey c d) v) d' = recorded s d' := by
  have hne : creatorKey c d ≠ authorityKey d' := by
    exact (authorityKey_ne_creators d' _).symm
  rw [recorded, get_set_of_ne s _ hne, ← recorded]

@[simp] theorem recorded_set_paramsKey (d : Bytes) (v : Value) : recorded (s.set paramsKey v) d = recorded s d := by
  rw [recorded, get_set_of_ne s _ (paramsKey_ne_authorityKey d), ← recorded]

@[simp] theorem get_creators_set_authority (d rest : Bytes) (v : Value) :
    (s.set (authorityKey d) v).get (getCreatorsPrefix ++ rest) = s.get (getCreatorsPrefix ++ rest) :=
  get_set_of_ne s v (authorityKey_ne_creators d rest)

@[simp] theorem get_creators_set_paramsKey (rest : Bytes) (v : Value) :
    (s.set paramsKey v).get (getCreatorsPrefix ++ rest) = s.get (getCreatorsPrefix ++ rest) :=
  get_set_of_ne s v (paramsKey_ne_creators rest)

@[simp] theorem get_paramsKey_set_authority (d : Bytes) (v : Value) :
    (s.set (authorityKey d) v).get paramsKey = s.get paramsKey :=
  get_set_of_ne s v (paramsKey_ne_authorityKey d).symm

@[simp] theorem get_paramsKey_set_creatorKey (c d : Bytes) (v : Value) :
    (s.set (creatorKey c d) v).get paramsKey = s.get paramsKey := by
  exact get_set_of_ne s v (paramsKey_ne_creators _).symm

end writes

theorem recorded_of_requireAdmin {s : KVStore Value} (hsender : sender ≠ [])
    (h : requireAdmin s denom sender = .ok ()) : recorded s denom = some ⟨sender⟩ := by
  obtain ⟨m, hm, hadmin⟩ := bind_eq_ok.mp h
  have hadmin : sender = m.admin := eq_of_beq (require_eq_ok.mp hadmin)
  unfold getAuthorityMetadata at hm
  rw [recorded_eq_some]
  rcases hget : s.get (authorityKey denom) with _ | p | m' | d <;> rw [hget] at hm
  · cases hm
    exact absurd hadmin hsender
  · cases hm
  · cases hm
    rw [hadmin]
  · cases hm

/-! ## Messages -/

/-- The state with the three records of a new denomination. -/
def State.withDenom (s : State β) (creator denom : Bytes) : State β where
  store := addDenomFromCreator (s.store.set (authorityKey denom) (.authority ⟨creator⟩)) creator denom
  metadata := setDenomMetaData s.metadata (newMetadata denom)
  bank := s.bank

def State.withAdmin (s : State β) (denom : Bytes) (m : DenomAuthorityMetadata) : State β :=
  { s with store := s.store.set (authorityKey denom) (.authority m) }

section withDenom

variable (s : State β) (creator denom : Bytes)

theorem recorded_withDenom (d : Bytes) : recorded (s.withDenom creator denom).store d =
    if denom = d then some ⟨creator⟩ else recorded s.store d := by
  rw [State.withDenom, addDenomFromCreator, recorded_set_creatorKey, recorded_set_authority]

theorem get_creators_withDenom (rest : Bytes) : (s.withDenom creator denom).store.get (getCreatorsPrefix ++ rest) =
      if creator ++ keySeparator :: denom = rest then some (.denom denom)
      else s.store.get (getCreatorsPrefix ++ rest) := by
  rw [State.withDenom, addDenomFromCreator, get_set, get_creators_set_authority, creatorKey_eq]
  simp only [List.append_cancel_left_eq]

theorem get_authority_withDenom (d : Bytes) : (s.withDenom creator denom).store.get (authorityKey d) =
    if denom = d then some (.authority ⟨creator⟩) else s.store.get (authorityKey d) := by
  have hne : creatorKey creator denom ≠ authorityKey d := by
    exact (authorityKey_ne_creators d _).symm
  rw [State.withDenom, addDenomFromCreator, get_set_of_ne _ _ hne, get_set]
  by_cases hd : denom = d
  · rw [if_pos (congrArg authorityKey hd), if_pos hd]
  · rw [if_neg fun heq => hd (authorityKey_injective heq), if_neg hd]

end withDenom

/-- What a message that does not come from the empty account does if it succeeds. -/
inductive Took (k : Keeper β) (s : State β) : Msg → State β → Prop
  | createDenom {sender subdenom : Bytes} {addr : AccAddress} {bank : β} :
      slash ∉ sender → validDenom (factoryDenom sender subdenom) = true →
      k.codec.accAddressFromBech32 sender = some addr →
      s.metadata.get (factoryDenom sender subdenom) = none →
      (bank = s.bank ∨ ∃ fee, k.fundCommunityPool s.bank fee addr = some bank) →
      Took k s (.createDenom sender subdenom)
        ({ s with bank := bank }.withDenom sender (factoryDenom sender subdenom))
  | mint {sender mintToAddress : Bytes} {amount : Coin} {bank : β} :
      recorded s.store amount.denom = some ⟨sender⟩ →
      k.mintTo s.bank amount (if mintToAddress = [] then sender else mintToAddress) = .ok bank →
      Took k s (.mint sender amount mintToAddress) { s with bank := bank }
  | burn {sender burnFromAddress : Bytes} {amount : Coin} {bank : β} :
      recorded s.store amount.denom = some ⟨sender⟩ →
      k.burnFrom s.bank amount (if burnFromAddress = [] then sender else burnFromAddress) = .ok bank →
      Took k s (.burn sender amount burnFromAddress) { s with bank := bank }
  | forceTransfer {sender fromAddr toAddr : Bytes} {amount : Coin} {bank : β} :
      recorded s.store amount.denom = some ⟨sender⟩ →
      k.forceTransfer s.bank amount fromAddr toAddr = .ok bank →
      Took k s (.forceTransfer sender amount fromAddr toAddr) { s with bank := bank }
  | changeAdmin {sender denom newAdmin : Bytes} :
      recorded s.store denom = some ⟨sender⟩ →
      DenomAuthorityMetadata.validate k.codec ⟨newAdmin⟩ = .ok () →
      Took k s (.changeAdmin sender denom newAdmin) (s.withAdmin denom ⟨newAdmin⟩)
  | setDenomMetadata {sender : Bytes} {metadata : Metadata} :
      recorded s.store metadata.base = some ⟨sender⟩ →
      Took k s (.setDenomMetadata sender metadata)
        { s with metadata := setDenomMetaData s.metadata metadata }
  | updateParams {authority : Bytes} {params : Params} :
      k.authority = authority → params.validate = .ok () →
      Took k s (.updateParams authority params)
        { s with store := s.store.set paramsKey (.params params) }

theorem setParams_eq_ok {s t : KVStore Value} {p : Params} (h : setParams s p = .ok t) :
    p.validate = .ok () ∧ t = s.set paramsKey (.params p) := by
  unfold setParams at h
  rcases hp : p.validate with _ | e | _ <;> rw [hp] at h
  · exact ⟨rfl, (ok.inj h).symm⟩
  · cases h
  · cases h

theorem setParams_of {p : Params} (h : p.validate = .ok ()) (s : KVStore Value) :
    setParams s p = .ok (s.set paramsKey (.params p)) := by
  rw [setParams, h]

theorem setAuthorityMetadata_eq_ok {s t : KVStore Value} (h : k.setAuthorityMetadata s denom m = .ok t) :
    m.validate k.codec = .ok () ∧ t = s.set (authorityKey denom) (.authority m) := by
  obtain ⟨_, hm, h⟩ := bind_eq_ok.mp h
  exact ⟨hm, (ok.inj h).symm⟩

theorem chargeForCreateDenom_eq_ok {t : State β} {addr : AccAddress}
    (haddr : k.codec.accAddressFromBech32 sender = some addr)
    (h : k.chargeForCreateDenom s sender = .ok t) : ∃ bank, t = { s with bank := bank } ∧
      (bank = s.bank ∨ ∃ fee, k.fundCommunityPool s.bank fee addr = some bank) := by
  obtain ⟨params, -, h⟩ := bind_eq_ok.mp h
  split at h
  · exact ⟨s.bank, (ok.inj h).symm, .inl rfl⟩
  · simp only [haddr, bind_eq_ok, demand_eq_ok, pure_eq, ok.injEq, Option.some.injEq] at h
    obtain ⟨_, rfl, bank, hfund, rfl⟩ := h
    exact ⟨bank, rfl, .inr ⟨_, hfund⟩⟩

theorem createDenomAfterValidation_eq_ok {t : State β} {creator : Bytes}
    (h : k.createDenomAfterValidation s creator denom = .ok t) : t = s.withDenom creator denom := by
  obtain ⟨store, hstore, h⟩ := bind_eq_ok.mp h
  obtain ⟨-, rfl⟩ := setAuthorityMetadata_eq_ok hstore
  exact (ok.inj h).symm

theorem createDenom_took {subdenom : Bytes}
    (h : k.createDenom s sender subdenom = .ok s') : Took k s (.createDenom sender subdenom) s' := by
  obtain ⟨_, hbasic, h⟩ := bind_eq_ok.mp h
  obtain ⟨denom, hdenom, h⟩ := bind_eq_ok.mp h
  obtain ⟨t, hcharge, h⟩ := bind_eq_ok.mp h
  obtain ⟨_, haddr, -⟩ := bind_eq_ok.mp hbasic
  obtain ⟨addr, haddr⟩ := Option.isSome_iff_exists.mp (require_eq_ok.mp haddr)
  obtain ⟨denom', htoken, hdenom⟩ := bind_eq_ok.mp hdenom
  obtain ⟨_, hnew, hdenom⟩ := bind_eq_ok.mp hdenom
  cases hdenom
  obtain ⟨rfl, hslash, hvalid⟩ := getTokenDenom_eq_ok htoken
  obtain ⟨bank, rfl, hbank⟩ := chargeForCreateDenom_eq_ok haddr hcharge
  rw [createDenomAfterValidation_eq_ok h]
  exact .createDenom hslash hvalid haddr (Option.isNone_iff_eq_none.mp (require_eq_ok.mp hnew)) hbank

theorem changeAdmin_took {newAdmin : Bytes} (hsender : sender ≠ [])
    (h : k.changeAdmin s sender denom newAdmin = .ok s') : Took k s (.changeAdmin sender denom newAdmin) s' := by
  obtain ⟨_, hadmin, h⟩ := bind_eq_ok.mp h
  obtain ⟨store, hstore, h⟩ := bind_eq_ok.mp h
  obtain ⟨m, -, hstore⟩ := bind_eq_ok.mp hstore
  obtain ⟨hvalid, rfl⟩ := setAuthorityMetadata_eq_ok hstore
  cases h
  exact .changeAdmin (recorded_of_requireAdmin hsender hadmin) hvalid

theorem handle_took {msg : Msg} (hsender : msg.sender ≠ []) (h : k.handle s msg = .ok s') : Took k s msg s' := by
  cases msg with
  | createDenom => exact createDenom_took h
  | mint =>
    obtain ⟨_, -, h⟩ := bind_eq_ok.mp h
    obtain ⟨_, hadmin, h⟩ := bind_eq_ok.mp h
    obtain ⟨bank, hbank, h⟩ := bind_eq_ok.mp h
    cases h
    exact .mint (recorded_of_requireAdmin hsender hadmin) hbank
  | burn =>
    obtain ⟨_, hadmin, h⟩ := bind_eq_ok.mp h
    obtain ⟨_, -, h⟩ := bind_eq_ok.mp h
    obtain ⟨bank, hbank, h⟩ := bind_eq_ok.mp h
    cases h
    exact .burn (recorded_of_requireAdmin hsender hadmin) hbank
  | forceTransfer =>
    obtain ⟨_, -, h⟩ := bind_eq_ok.mp h
    obtain ⟨_, hadmin, h⟩ := bind_eq_ok.mp h
    obtain ⟨bank, hbank, h⟩ := bind_eq_ok.mp h
    cases h
    exact .forceTransfer (recorded_of_requireAdmin hsender hadmin) hbank
  | changeAdmin => exact changeAdmin_took hsender h
  | setDenomMetadata =>
    obtain ⟨_, -, h⟩ := bind_eq_ok.mp h
    obtain ⟨_, -, h⟩ := bind_eq_ok.mp h
    obtain ⟨_, hadmin, h⟩ := bind_eq_ok.mp h
    cases h
    exact .setDenomMetadata (recorded_of_requireAdmin hsender hadmin)
  | updateParams =>
    obtain ⟨_, hauthority, h⟩ := bind_eq_ok.mp h
    obtain ⟨store, hstore, h⟩ := bind_eq_ok.mp h
    obtain ⟨hvalid, rfl⟩ := setParams_eq_ok hstore
    cases h
    exact .updateParams (eq_of_beq (require_eq_ok.mp hauthority)) hvalid

/-! ## Consistency -/

/-- How the three records hang together. -/
structure Consistent (k : Keeper β) (s : State β) : Prop where
  params : ∃ p, s.store.get paramsKey = some (.params p) ∧ p.validate = .ok ()
  /-- the index has nothing but created denominations -/
  index : ∀ {rest v}, s.store.get (getCreatorsPrefix ++ rest) = some v →
    ∃ creator denom, rest = creator ++ keySeparator :: denom ∧ v = .denom denom ∧
      (recorded s.store denom).isSome
  /-- and all of them -/
  indexed : ∀ {d}, (recorded s.store d).isSome → ∃ creator, s.store.get (creatorKey creator d) = some (.denom d)
  /-- an admin row has an admin -/
  authority : ∀ {d v}, s.store.get (authorityKey d) = some v → ∃ m, v = .authority m
  admin : ∀ {d m}, recorded s.store d = some m → m.validate k.codec = .ok ()
  factory : ∀ {d}, (recorded s.store d).isSome → ∃ creator sub, deconstructDenom k.codec d = .ok (creator, sub)
  metadata : ∀ {d}, (recorded s.store d).isSome → (s.metadata.get d).isSome
  based : ∀ {d m}, s.metadata.get d = some m → m.base = d

namespace Consistent

variable {s : State β} (h : Consistent k s)
include h

theorem withBank (bank : β) : Consistent k { s with bank := bank } :=
  ⟨h.params, h.index, h.indexed, h.authority, h.admin, h.factory, h.metadata, h.based⟩

theorem withAdmin {denom : Bytes} {m : DenomAuthorityMetadata} (hrecorded : (recorded s.store denom).isSome)
    (hm : m.validate k.codec = .ok ()) : Consistent k (s.withAdmin denom m) := by
  have hsome : ∀ d, (recorded (s.withAdmin denom m).store d).isSome ↔ (recorded s.store d).isSome := by
    intro d
    rw [State.withAdmin, recorded_set_authority]
    by_cases hd : denom = d
    · subst hd
      rw [if_pos rfl]
      exact iff_of_true rfl hrecorded
    · rw [if_neg hd]
  refine ⟨?_, ?_, ?_, ?_, ?_, ?_, ?_, h.based⟩
  · simpa [State.withAdmin] using h.params
  · intro rest v hget
    simp only [State.withAdmin, get_creators_set_authority] at hget
    obtain ⟨creator, d, hrest, hv, hd⟩ := h.index hget
    exact ⟨creator, d, hrest, hv, (hsome d).mpr hd⟩
  · intro d hd
    obtain ⟨creator, hcreator⟩ := h.indexed ((hsome d).mp hd)
    refine ⟨creator, ?_⟩
    rw [creatorKey_eq] at hcreator ⊢
    rw [State.withAdmin, get_creators_set_authority, hcreator]
  · intro d v hget
    by_cases hd : denom = d
    · subst hd
      rw [State.withAdmin, get_set_self] at hget
      exact ⟨m, (Option.some.inj hget).symm⟩
    · rw [State.withAdmin, get_set_of_ne _ _ fun heq => hd (authorityKey_injective heq)] at hget
      exact h.authority hget
  · intro d m' hd
    rw [State.withAdmin, recorded_set_authority] at hd
    split at hd
    · exact Option.some.inj hd ▸ hm
    · exact h.admin hd
  · exact fun hd => h.factory ((hsome _).mp hd)
  · exact fun hd => h.metadata ((hsome _).mp hd)

theorem withMetadata (m : Metadata) : Consistent k { s with metadata := setDenomMetaData s.metadata m } := by
  refine ⟨h.params, h.index, h.indexed, h.authority, h.admin, h.factory, ?_, ?_⟩
  · intro d hd
    simp only [setDenomMetaData, get_set]
    split
    · rfl
    · exact h.metadata hd
  · intro d m' hget
    simp only [setDenomMetaData, get_set] at hget
    split at hget
    · next hbase => exact Option.some.inj hget ▸ hbase
    · exact h.based hget

theorem withParams {p : Params} (hp : p.validate = .ok ()) :
    Consistent k { s with store := s.store.set paramsKey (.params p) } := by
  refine ⟨⟨p, get_set_self .., hp⟩, ?_, ?_, ?_, ?_, ?_, ?_, h.based⟩
  · intro rest v hget
    simpa using h.index (by simpa using hget)
  · intro d hd
    obtain ⟨creator, hcreator⟩ := h.indexed (by simpa using hd)
    refine ⟨creator, ?_⟩
    rw [creatorKey_eq] at hcreator ⊢
    rw [get_creators_set_paramsKey, hcreator]
  · intro d v hget
    rw [get_set_of_ne _ _ (paramsKey_ne_authorityKey d)] at hget
    exact h.authority hget
  · exact fun hd => h.admin (by simpa using hd)
  · exact fun hd => h.factory (by simpa using hd)
  · exact fun hd => h.metadata (by simpa using hd)

theorem keySeparator_not_mem_of_recorded {d : Bytes} (hd : (recorded s.store d).isSome) : keySeparator ∉ d := by
  obtain ⟨creator, sub, hfactory⟩ := h.factory hd
  exact keySeparator_not_mem (deconstructDenom_eq_ok hfactory).1

theorem withDenom {creator denom canonical sub : Bytes}
    (hfactory : deconstructDenom k.codec denom = .ok (canonical, sub))
    (hcreator : DenomAuthorityMetadata.validate k.codec ⟨creator⟩ = .ok ()) :
    Consistent k (s.withDenom creator denom) := by
  have hsome : ∀ d, (recorded (s.withDenom creator denom).store d).isSome ↔
      denom = d ∨ (recorded s.store d).isSome := by
    intro d
    rw [recorded_withDenom]
    by_cases hd : denom = d
    · simp [hd]
    · simp [hd]
  refine ⟨?_, ?_, ?_, ?_, ?_, ?_, ?_, fun hget => (h.withMetadata (newMetadata denom)).based hget⟩
  · simpa [State.withDenom, addDenomFromCreator] using h.params
  · intro rest v hget
    rw [get_creators_withDenom] at hget
    split at hget
    · next hrest => exact ⟨creator, denom, hrest.symm, (Option.some.inj hget).symm, (hsome denom).mpr (.inl rfl)⟩
    · obtain ⟨c, d, hrest, hv, hd⟩ := h.index hget
      exact ⟨c, d, hrest, hv, (hsome d).mpr (.inr hd)⟩
  · intro d hd
    rcases (hsome d).mp hd with rfl | hd
    · exact ⟨creator, by rw [creatorKey_eq, get_creators_withDenom, if_pos rfl]⟩
    · obtain ⟨c, hc⟩ := h.indexed hd
      refine ⟨c, ?_⟩
      rw [creatorKey_eq] at hc ⊢
      rw [get_creators_withDenom, hc]
      split
      · next hrest =>
          have hdenom := keySeparator_not_mem (deconstructDenom_eq_ok hfactory).1
          rw [(append_sep_inj_right hdenom (h.keySeparator_not_mem_of_recorded hd) hrest).2]
      · rfl
  · intro d v hget
    rw [get_authority_withDenom] at hget
    split at hget
    · exact ⟨_, (Option.some.inj hget).symm⟩
    · exact h.authority hget
  · intro d m hd
    rw [recorded_withDenom] at hd
    split at hd
    · exact Option.some.inj hd ▸ hcreator
    · exact h.admin hd
  · intro d hd
    rcases (hsome d).mp hd with rfl | hd
    · exact ⟨canonical, sub, hfactory⟩
    · exact h.factory hd
  · intro d hd
    simp only [State.withDenom, setDenomMetaData, get_set]
    split
    · rfl
    · next hne => exact h.metadata (((hsome d).mp hd).resolve_left hne)

end Consistent

/-! ## Runs -/

theorem Took.consistent {msg : Msg} (h : Took k s msg s') (hs : Consistent k s) : Consistent k s' := by
  cases h with
  | createDenom hslash hvalid haddr =>
    refine (hs.withBank _).withDenom (deconstructDenom_factoryDenom hslash haddr _ hvalid) ?_
    unfold DenomAuthorityMetadata.validate
    split
    · rfl
    · rw [haddr]
      rfl
  | mint | burn | forceTransfer => exact hs.withBank _
  | changeAdmin hadmin hvalid => exact hs.withAdmin (by rw [hadmin]; rfl) hvalid
  | setDenomMetadata hadmin => exact hs.withMetadata _
  | updateParams hauthority hvalid => exact hs.withParams hvalid

theorem step_consistent {msg : Msg} (hs : Consistent k s) (hsender : msg.sender ≠ []) : Consistent k (k.step s msg) :=
  orElse_elim hs fun _ h => (handle_took hsender h).consistent hs

theorem run_consistent {msgs : List Msg} (hs : Consistent k s)
    (hsenders : ∀ msg ∈ msgs, msg.sender ≠ []) : Consistent k (run k.step s msgs) :=
  run_invariant (I := Consistent k) (fun _ _ ht hmsg => step_consistent ht hmsg) s msgs (Along.of_mem hsenders s) hs

end TokenFactory
