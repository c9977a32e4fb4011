/-
  The extension of a validator's own vote, made from what its sidecar answers.
-/
import TerpCore.Hashmerchant.Registry

namespace Hashmerchant

open Lib Outcome List Keeper

variable {β : Type}

/-! ## The sidecar -/

structure SidecarAttestation where
  sourceID : Bytes
  /-- hexadecimal -/
  value : Bytes
  height : UInt64
  timestamp : Int64
  /-- hexadecimal -/
  custodySignature : Bytes

structure SidecarResponse where
  runtimeID : Bytes
  chainUID : Bytes
  algo : Bytes
  /-- hexadecimal -/
  root : Bytes
  foreignHeight : UInt64
  foreignBlockTime : Int64
  attestations : List SidecarAttestation

/-- How the request ends: it fails, or there is a status and a body, which may fail to be read. -/
inductive HttpAnswer where
  | failed
  | response (statusCode : ℕ) (body : Option Bytes)

inductive SidecarErr where
  | httpGet
  | status (code : ℕ)
  | reading
  | decodingJSON
  | rootHex
  | valueHex (sourceID : Bytes)
  | signatureHex (sourceID : Bytes)
  | noAttestations
  | rootMismatch
  deriving DecidableEq

def SidecarErr.format : SidecarErr → String
  | httpGet => "sidecar HTTP GET: %w"
  | status _ => "sidecar returned status %d"
  | reading => "reading sidecar response: %w"
  | decodingJSON => "decoding sidecar JSON: %w"
  | rootHex => "decoding root hex: %w"
  | valueHex _ => "decoding attestation value hex for %q: %w"
  | signatureHex _ => "decoding custody signature hex for %q: %w"
  | noAttestations => "sidecar returned no attestations"
  | rootMismatch => "sidecar root does not match sorted aggregate"

/-- The keeper of a node, with its configuration and the codecs of the answer and of the extension. -/
structure NodeKeeper (β : Type) extends Keeper β where
  sidecarURL : Bytes
  /-- `json.Unmarshal` of the answer -/
  unmarshalSidecar : Bytes → Option SidecarResponse
  /-- `k.cdc.Marshal` of a vote extension -/
  marshalVoteExtension : VoteExtensionHashData → Option Bytes

def orFail {ε α : Type} (e : ε) : Option α → Outcome ε α
  | some a => .ok a
  | none => .error e

def SidecarAttestation.decode (a : SidecarAttestation) : Outcome SidecarErr OracleAttestation := do
  let value ← orFail (.valueHex a.sourceID) (unhex a.value)
  let signature ← orFail (.signatureHex a.sourceID) (unhex a.custodySignature)
  return {
    sourceId := a.sourceID
    value := value
    height := a.height
    timestamp := a.timestamp
    custodySignature := signature
    ics23Proof := [] }

/-- The loop over the attestations, which stops at the first error. -/
def decodeAttestations : List SidecarAttestation → Outcome SidecarErr (List OracleAttestation)
  | [] => .ok []
  | a :: as => do
    let att ← a.decode
    let atts ← decodeAttestations as
    return att :: atts

variable (k : NodeKeeper β)

/-- The body of an answer with status 200. -/
def HttpAnswer.body : HttpAnswer → Outcome SidecarErr Bytes
  | .failed => .error .httpGet
  | .response statusCode body =>
    if statusCode ≠ 200 then .error (.status statusCode) else orFail .reading body

def NodeKeeper.fetchSidecar (answer : HttpAnswer) : Outcome SidecarErr VoteExtensionHashData := do
  let body ← answer.body
  let sr ← orFail .decodingJSON (k.unmarshalSidecar body)
  let rootBytes ← orFail .rootHex (unhex sr.root)
  let attestations ← decodeAttestations sr.attestations
  require (attestations ≠ []) .noAttestations
  let root := k.aggregateAttestationRoot attestations
  require (rootBytes = [] || rootBytes = root) .rootMismatch
  return {
    runtimeId := sr.runtimeID
    chainUid := sr.chainUID
    algo := sr.algo
    root := root
    foreignHeight := sr.foreignHeight
    foreignBlockTime := sr.foreignBlockTime
    ics23Proof := []
    attestations := attestations.map some }

/-- `ExtendVoteHandler`: without a sidecar, and after an error, the extension is empty. -/
def NodeKeeper.extendVote (answer : HttpAnswer) : Bytes :=
  if k.sidecarURL = [] then []
  else match k.fetchSidecar answer with
    | .ok data => (k.marshalVoteExtension data).getD []
    | _ => []

/-! ## Agreement with verification -/

variable {k}

/-- The codec of extensions: what was encoded is decoded, where no element of a list is nil, and the empty string has
no attestations. -/
structure Roundtrips (k : NodeKeeper β) : Prop where
  decoded : ∀ data bz, (∀ att ∈ data.attestations, att.isSome) → k.marshalVoteExtension data = some bz →
    k.unmarshalVoteExtension bz = some data
  empty : ∀ data, k.unmarshalVoteExtension [] = some data → data.attestations = []

/-- What an attestation of an answer says, its value and its signature read as hexadecimal. -/
structure SidecarAttestation.Reads (a : SidecarAttestation) (att : OracleAttestation) : Prop where
  source : att.sourceId = a.sourceID
  value : unhex a.value = some att.value
  height : att.height = a.height
  timestamp : att.timestamp = a.timestamp
  signature : unhex a.custodySignature = some att.custodySignature
  proof : att.ics23Proof = []

/-- The extension for an answer. -/
def SidecarResponse.extension (sr : SidecarResponse) (root : Bytes) (atts : List OracleAttestation) :
    VoteExtensionHashData :=
  ⟨sr.runtimeID, sr.chainUID, sr.algo, root, sr.foreignHeight, sr.foreignBlockTime, [], atts.map some⟩

/-- An answer to vote for: with status 200 and a JSON body, whose hexadecimal fields read as some attestations and as a
root that is missing or their aggregate. -/
structure Answers (k : NodeKeeper β) (answer : HttpAnswer) (sr : SidecarResponse) (atts : List OracleAttestation) :
    Prop where
  body : ∃ body, answer = .response 200 (some body) ∧ k.unmarshalSidecar body = some sr
  attestations : List.Forall₂ SidecarAttestation.Reads sr.attestations atts
  nonempty : sr.attestations ≠ []
  root : ∃ root, unhex sr.root = some root ∧ (root = [] ∨ root = k.aggregateAttestationRoot atts)

/-- The first enabled source of a table with an identifier. -/
def FirstEnabled (sources : List OracleSource) (sourceID : Bytes) (src : OracleSource) : Prop :=
  ∃ before after, sources = before ++ src :: after ∧ src.enabled = true ∧ src.sourceId = sourceID ∧
    ∀ other ∈ before, other.enabled = true → other.sourceId ≠ sourceID

/-- What the store must hold: the chain is registered and enabled, and the source in its table authenticates each
attestation. -/
structure Publishable (k : Keeper β) (s : Store) (chainUID : Bytes) (atts : List OracleAttestation) : Prop where
  chain : ∃ chain, getRegisteredChain s chainUID = .ok chain ∧ chain.enabled = true
  params : ∃ params, getParams s = .ok params
  signed : ∃ sources, k.getOracleSources s chainUID = .ok sources ∧
    ∀ att ∈ atts, ∃ src, FirstEnabled sources att.sourceId src ∧ Authenticates k src att

theorem orFail_eq_ok {ε α : Type} {e : ε} {x : Option α} {a : α} : orFail e x = .ok a ↔ x = some a := by
  cases x <;> simp [orFail]

theorem decode_eq_ok {a : SidecarAttestation} {att : OracleAttestation} : a.decode = .ok att ↔ a.Reads att := by
  simp only [SidecarAttestation.decode, bind_eq_ok, orFail_eq_ok]
  constructor
  · rintro ⟨value, hvalue, signature, hsignature, h⟩
    cases h
    exact ⟨rfl, hvalue, rfl, rfl, hsignature, rfl⟩
  · rintro ⟨hsource, hvalue, hheight, htimestamp, hsignature, hproof⟩
    refine ⟨att.value, hvalue, att.custodySignature, hsignature, ?_⟩
    rw [← hsource, ← hheight, ← htimestamp, ← hproof]
    rfl

theorem decodeAttestations_eq_ok : ∀ {as : List SidecarAttestation} {atts : List OracleAttestation},
    decodeAttestations as = .ok atts ↔ List.Forall₂ SidecarAttestation.Reads as atts
  | [], atts => by
    rw [forall₂_nil_left_iff, decodeAttestations, ok.injEq, eq_comm]
  | a :: as, atts => by
    simp only [decodeAttestations, bind_eq_ok, decode_eq_ok, decodeAttestations_eq_ok, forall₂_cons_left_iff]
    constructor
    · rintro ⟨att, hatt, rest, hrest, h⟩
      cases h
      exact ⟨att, rest, hatt, hrest, rfl⟩
    · rintro ⟨att, rest, hatt, hrest, rfl⟩
      exact ⟨att, hatt, rest, hrest, rfl⟩

theorem body_eq_ok {answer : HttpAnswer} {body : Bytes} :
    answer.body = .ok body ↔ answer = .response 200 (some body) := by
  cases answer with
  | failed => simp [HttpAnswer.body]
  | response statusCode b =>
    rw [HttpAnswer.body]
    split_ifs with hstatus
    · simp [hstatus]
    · simp [orFail_eq_ok, not_not.mp hstatus]

/-- The node makes an extension of the answers to vote for, and of no others. -/
theorem fetchSidecar_eq_ok {answer : HttpAnswer} {data : VoteExtensionHashData} :
    k.fetchSidecar answer = .ok data ↔ ∃ sr atts, Answers k answer sr atts ∧
      data = sr.extension (k.aggregateAttestationRoot atts) atts := by
  simp only [NodeKeeper.fetchSidecar, bind_eq_ok, require_eq_ok, body_eq_ok, orFail_eq_ok, decodeAttestations_eq_ok,
    decide_eq_true_eq, Bool.or_eq_true]
  constructor
  · rintro ⟨body, hbody, sr, hsr, root, hroot, atts, hatts, -, hne, -, hmatch, h⟩
    cases h
    refine ⟨sr, atts, ⟨⟨body, hbody, hsr⟩, hatts, ?_, root, hroot, hmatch⟩, rfl⟩
    rintro hnil
    rw [hnil, forall₂_nil_left_iff] at hatts
    exact hne hatts
  · rintro ⟨sr, atts, ⟨⟨body, hbody, hsr⟩, hatts, hne, root, hroot, hmatch⟩, rfl⟩
    refine ⟨body, hbody, sr, hsr, root, hroot, atts, hatts, (), ?_, (), hmatch, rfl⟩
    rintro rfl
    exact hne (forall₂_nil_right_iff.mp hatts)

theorem findOracleSource_eq_first {sources : List OracleSource} {sourceID : Bytes} {src : OracleSource} :
    findOracleSource sources sourceID = some src ↔ FirstEnabled sources sourceID src := by
  rw [findOracleSource, List.find?_eq_some_iff_append]
  constructor
  · rintro ⟨hsrc, before, after, hsplit, hbefore⟩
    have hsrc : src.sourceId = sourceID ∧ src.enabled = true := by simpa using hsrc
    refine ⟨before, after, hsplit, hsrc.2, hsrc.1, fun other hother henabled hid => ?_⟩
    simpa [henabled, hid] using hbefore other hother
  · rintro ⟨before, after, hsplit, henabled, hid, hbefore⟩
    refine ⟨by simp [henabled, hid], before, after, hsplit, fun other hother => ?_⟩
    by_cases hother' : other.enabled = true
    · simp [hbefore other hother hother']
    · simp [hother']

theorem verifyOracleAttestations_eq_ok {k : Keeper β} {s : Store} {chainUID : Bytes} {atts : List OracleAttestation}
    (hne : atts ≠ []) :
    k.verifyOracleAttestations s chainUID atts = .ok () ↔ (∃ params, getParams s = .ok params) ∧
      ∃ sources, k.getOracleSources s chainUID = .ok sources ∧
        ∀ att ∈ atts, ∃ src, FirstEnabled sources att.sourceId src ∧ Authenticates k src att := by
  simp only [verifyOracleAttestations, if_neg hne, bind_eq_ok, verifyEach_eq_ok, verifyAttestation_eq_ok,
    findOracleSource_eq_first]
  constructor
  · rintro ⟨sources, hsources, params, hparams, hall⟩
    exact ⟨⟨params, hparams⟩, sources, hsources, hall⟩
  · rintro ⟨⟨params, hparams⟩, sources, hsources, hall⟩
    exact ⟨sources, hsources, params, hparams, hall⟩

/-- An extension with attestations and their aggregate has nothing else to fear. -/
theorem admissible_iff {s : Store} {sr : SidecarResponse} {atts : List OracleAttestation} (hne : atts ≠ []) :
    k.Admissible s (sr.extension (k.aggregateAttestationRoot atts) atts) ↔
      Publishable k.toKeeper s sr.chainUID atts := by
  have hatts : k.voteExtensionAttestations (sr.extension (k.aggregateAttestationRoot atts) atts) = atts := by
    simp [voteExtensionAttestations, SidecarResponse.extension, hne]
  constructor
  · rintro ⟨hchain, hsigned, -⟩
    rw [hatts] at hsigned
    obtain ⟨hparams, hsources⟩ := (verifyOracleAttestations_eq_ok hne).mp hsigned
    exact ⟨hchain, hparams, hsources⟩
  · rintro ⟨hchain, hparams, hsources⟩
    refine ⟨hchain, ?_, fun _ _ => by rw [hatts]; rfl⟩
    rw [hatts]
    exact (verifyOracleAttestations_eq_ok hne).mpr ⟨hparams, hsources⟩

/-- **The own extension.**  A node without a sidecar is accepted by its peers.  With one it is accepted exactly if an
answer to vote for, whose extension can be encoded, names an enabled chain of theirs and is signed by sources of the
chain's table. -/
theorem extendVote_accepted_iff (hcodec : Roundtrips k) (s : Store) (answer : HttpAnswer) :
    k.verifyVoteExtension s (k.extendVote answer) = .accept ↔ (k.sidecarURL ≠ [] → ∀ sr atts, Answers k answer sr atts →
      (k.marshalVoteExtension (sr.extension (k.aggregateAttestationRoot atts) atts)).isSome →
        Publishable k.toKeeper s sr.chainUID atts) := by
  by_cases hurl : k.sidecarURL = []
  · simp [NodeKeeper.extendVote, hurl, verifyVoteExtension]
  rw [forall_prop_of_true hurl, NodeKeeper.extendVote, if_neg hurl]
  -- the extension of an answer that the node takes, if it is encoded
  have hencoded : ∀ {sr atts bz}, Answers k answer sr atts →
      k.marshalVoteExtension (sr.extension (k.aggregateAttestationRoot atts) atts) = some bz →
      (k.verifyVoteExtension s bz = .accept ↔ Publishable k.toKeeper s sr.chainUID atts) := by
    intro sr atts bz hanswers hbz
    have hne : atts ≠ [] := by
      rintro rfl
      exact hanswers.nonempty (forall₂_nil_right_iff.mp hanswers.attestations)
    have hdecoded := hcodec.decoded _ bz (by simp [SidecarResponse.extension]) hbz
    have hbytes : bz ≠ [] := by
      rintro rfl
      exact hne (map_eq_nil_iff.mp (hcodec.empty _ hdecoded))
    rw [verifyVoteExtension_eq_accept, or_iff_right hbytes, hdecoded]
    simp only [Option.some.injEq, exists_eq_left']
    exact admissible_iff hne
  constructor
  · intro haccept sr atts hanswers hsome
    obtain ⟨bz, hbz⟩ := Option.isSome_iff_exists.mp hsome
    rw [fetchSidecar_eq_ok.mpr ⟨sr, atts, hanswers, rfl⟩] at haccept
    simp only [hbz] at haccept
    exact (hencoded hanswers hbz).mp haccept
  · intro hall
    cases hfetch : k.fetchSidecar answer with
    | ok data =>
      obtain ⟨sr, atts, hanswers, rfl⟩ := fetchSidecar_eq_ok.mp hfetch
      cases hbz : k.marshalVoteExtension (sr.extension (k.aggregateAttestationRoot atts) atts) with
      | none => simp [hbz, verifyVoteExtension]
      | some bz =>
        simp only [hbz]
        exact (hencoded hanswers hbz).mpr (hall sr atts hanswers (by simp [hbz]))
    | error | panicked => simp [verifyVoteExtension]

/-! An answer for the chain `c` with the attestation of its source. -/

/-- The body of the answer. -/
def sampleAnswerBody : Bytes :=
  ascii "\x7b\"chain_uid\":\"c\",\"algo\":\"a\",\"attestations\":[\x7b\"source_id\":\"s\",\"value\":\"01\"," ++
    ascii "\"height\":5,\"timestamp\":7,\"custody_signature\":\"" ++ hex sampleSignature ++ ascii "\"\x7d]\x7d"

/-- What the body says. -/
def sampleResponse : SidecarResponse :=
  ⟨[], ascii "c", ascii "a", [], 0, 0, [⟨ascii "s", ascii "01", 5, 7, hex sampleSignature⟩]⟩

/-- The answer of the sidecar. -/
def sampleAnswer : HttpAnswer := .response 200 (some sampleAnswerBody)

/-- A node that reads this answer and writes its extension. -/
def nodeKeeper : NodeKeeper Unit :=
  { attestedKeeper with
    sidecarURL := ascii "sidecar"
    unmarshalSidecar := fun body => if body = sampleAnswerBody then some sampleResponse else none
    marshalVoteExtension := fun data =>
      if data = attestedExtension sampleAggregate then some (attestedExtensionBytes sampleAggregate)
      else none }

theorem nodeKeeper_roundtrips : Roundtrips nodeKeeper where
  decoded := by
    intro data bz _ h
    obtain ⟨rfl, hbz⟩ := Option.ite_none_right_eq_some.mp h
    rw [← Option.some.inj hbz]
    decide
  empty := by
    intro data h
    cases h

/-- The chain is not registered: the node signs an extension that its peers reject. -/
theorem unregistered_extension_rejected :
    nodeKeeper.extendVote sampleAnswer = attestedExtensionBytes sampleAggregate ∧
      nodeKeeper.verifyVoteExtension .empty (nodeKeeper.extendVote sampleAnswer) = .reject := by
  have hextend : nodeKeeper.extendVote sampleAnswer = attestedExtensionBytes sampleAggregate := by
    decide +kernel
  rw [hextend]
  exact ⟨rfl, by decide⟩

/-- With the chain and its source registered the same extension is accepted. -/
theorem registered_extension_accepted :
    Roundtrips nodeKeeper ∧
      nodeKeeper.verifyVoteExtension attestedStore (nodeKeeper.extendVote sampleAnswer) = .accept := by
  refine ⟨nodeKeeper_roundtrips, (extendVote_accepted_iff nodeKeeper_roundtrips _ _).mpr fun _ sr atts h _ => ?_⟩
  obtain ⟨body, hbody, hsr⟩ := h.body
  cases hbody
  have hread : nodeKeeper.unmarshalSidecar sampleAnswerBody = some sampleResponse := by simp [nodeKeeper]
  cases hread.symm.trans hsr
  have hatts : decodeAttestations sampleResponse.attestations = .ok [sampleAttestation] := by decide +kernel
  cases hatts.symm.trans (decodeAttestations_eq_ok.mpr h.attestations)
  refine ⟨⟨_, rfl, rfl⟩, ⟨_, rfl⟩, [sampleSource], by decide, ?_⟩
  intro att hatt
  obtain rfl := mem_singleton.mp hatt
  exact ⟨sampleSource, findOracleSource_eq_first.mp rfl, _, rfl, rfl, by decide, by decide⟩

end Hashmerchant
