/-
  What the hashed strings commit to.

  They are joined without lengths, so they commit to what can be cut in one way only.
-/
import TerpCore.Hashmerchant.AttestationSet
import TerpCore.Lib.Split

namespace Hashmerchant

open Lib List

variable {β : Type} {k : Keeper β}

/-- The string that is hashed. -/
def digestText (ps : List HashMerchantSudoOracleAttestation) : Bytes :=
  ps.flatMap HashMerchantSudoOracleAttestation.digestInput

variable {ps ps' : List HashMerchantSudoOracleAttestation}

/-! ## Strings that are cut in one way -/

/-- No source id starts another, and the values of a source have one length. -/
def Delimited (l : List OracleAttestation) : Prop :=
  ∀ a ∈ l, ∀ b ∈ l, a.sourceId <+: b.sourceId → a.sourceId = b.sourceId ∧ a.value.length = b.value.length

/-- The same for two sequences. -/
def DelimitedBy (ps ps' : List HashMerchantSudoOracleAttestation) : Prop :=
  ∀ p ∈ ps, ∀ p' ∈ ps', p.sourceID <+: p'.sourceID ∨ p'.sourceID <+: p.sourceID →
    p.sourceID = p'.sourceID ∧ p.value.length = p'.value.length

theorem digestText_cons (p : HashMerchantSudoOracleAttestation) :
    digestText (p :: ps) = p.sourceID ++ (p.value ++ (le64 p.height ++ digestText ps)) := by
  simp [digestText, HashMerchantSudoOracleAttestation.digestInput]

theorem digestText_cons_ne_nil (p : HashMerchantSudoOracleAttestation) : digestText (p :: ps) ≠ [] := by
  intro h
  have hlen := congrArg List.length h
  simp only [digestText_cons, length_append, length_le64, length_nil] at hlen
  omega

/-- The first attestation is read off, and then the rest. -/
theorem eq_of_digestText_eq : ∀ {ps ps' : List HashMerchantSudoOracleAttestation}, DelimitedBy ps ps' →
    digestText ps = digestText ps' → ps = ps'
  | [], [], _, _ => rfl
  | [], p' :: ps', _, heq => absurd heq.symm (digestText_cons_ne_nil p')
  | p :: ps, [], _, heq => absurd heq (digestText_cons_ne_nil p)
  | p :: ps, p' :: ps', hdelim, heq => by
    rw [digestText_cons, digestText_cons] at heq
    have hcomparable : p.sourceID <+: p'.sourceID ∨ p'.sourceID <+: p.sourceID :=
      prefix_or_prefix_of_prefix ⟨_, heq⟩ ⟨_, rfl⟩
    obtain ⟨hsource, hlen⟩ := hdelim p mem_cons_self p' mem_cons_self hcomparable
    rw [hsource] at heq
    obtain ⟨hvalue, heq⟩ := append_inj (append_cancel_left heq) hlen
    obtain ⟨hheight, heq⟩ := append_inj heq (by simp)
    have hp : p = p' := by
      cases p
      simp_all [le64_injective.eq_iff]
    rw [hp, eq_of_digestText_eq (fun q hq q' hq' => hdelim q (mem_cons_of_mem _ hq) q' (mem_cons_of_mem _ hq')) heq]

/-! ## The aggregate root -/

/-- The (source id, value, height) of the attestations that the root is made of, in their order. -/
def Keeper.sequence (k : Keeper β) (l : List OracleAttestation) : List HashMerchantSudoOracleAttestation :=
  (k.canonical l).map OracleAttestation.projection

variable {l l' : List OracleAttestation}

theorem delimitedBy_of_delimited (h : Delimited (l ++ l')) : DelimitedBy (k.sequence l) (k.sequence l') := by
  intro p hp p' hp' hcomparable
  obtain ⟨a, ha, rfl⟩ := mem_map.mp hp
  obtain ⟨b, hb, rfl⟩ := mem_map.mp hp'
  have ha := mem_append_left l' (mem_of_mem_canonical ha)
  have hb := mem_append_right l (mem_of_mem_canonical hb)
  rcases hcomparable with hpre | hpre
  · exact h a ha b hb hpre
  · obtain ⟨hsource, hlen⟩ := h b hb a ha hpre
    exact ⟨hsource.symm, hlen.symm⟩

/-- A hash that is the identity, and signatures that are the signed payload. -/
def commitKeeper : Keeper Unit :=
  { Tables.keeper { sources := [([1], [source "a", source "ab", source "b", source "c"])] } with
    sha256 := id
    ed25519Verify := fun _ message signature => message == signature }
where
  source (id : String) : OracleSource :=
    ⟨ascii id, 0, [], [], some ⟨List.replicate 32 7, ascii "ed25519", ascii "price"⟩, true⟩

/-- An attestation signed by its source. -/
def attest (id : String) (value : Bytes) (height : UInt64) : OracleAttestation :=
  ⟨ascii id, value, height, 0, commitKeeper.custodyPayload (ascii "price") (ascii id) value height 0, []⟩

/-- The table of `commitKeeper`, of the chain `c`. -/
def commitStore : Store := KVStore.empty.set (oracleSourcesKey (ascii "c")) (.raw [1])

/-- The text whose hash is the domain of a payload. -/
def custodyText (scope sourceID : Bytes) : Bytes :=
  ascii "hashmerchant/custody/" ++ scope ++ ascii "/" ++ sourceID

/-- All that a source signs. -/
structure CustodyClaim where
  scope : Bytes
  sourceID : Bytes
  value : Bytes
  height : UInt64
  timestamp : Int64
  deriving DecidableEq

/-- What a source signs for a claim. -/
def Keeper.payloadOf (k : Keeper β) (c : CustodyClaim) : Bytes :=
  k.custodyPayload c.scope c.sourceID c.value c.height c.timestamp

/-- Scope and source id are joined to one string, and the rest is the same. -/
def SharesPayload (c c' : CustodyClaim) : Prop :=
  Ambiguous 0x2f (c.scope, c.sourceID) (c'.scope, c'.sourceID) ∧
    c.value = c'.value ∧ c.height = c'.height ∧ c.timestamp = c'.timestamp

theorem custodyText_eq_iff {scope sourceID scope' sourceID' : Bytes} :
    custodyText scope sourceID = custodyText scope' sourceID' ↔
      scope ++ 0x2f :: sourceID = scope' ++ 0x2f :: sourceID' := by
  have hslash : ascii "/" = [0x2f] := rfl
  simp only [custodyText, hslash, append_assoc, singleton_append, append_cancel_left_eq]

variable {c c' : CustodyClaim}

theorem payloadOf_eq_iff (hlen : ∀ b, (k.sha256 b).length = 32) :
    k.payloadOf c = k.payloadOf c' ↔
      k.sha256 (custodyText c.scope c.sourceID) = k.sha256 (custodyText c'.scope c'.sourceID) ∧
        c.value = c'.value ∧ c.height = c'.height ∧ c.timestamp = c'.timestamp := by
  simp only [Keeper.payloadOf, Keeper.custodyPayload]
  constructor
  · intro h
    obtain ⟨h, htime⟩ := append_inj' h (by simp)
    obtain ⟨h, hheight⟩ := append_inj' h (by simp)
    obtain ⟨hdomain, hvalue⟩ := append_inj h (by simp [Keeper.custodyDomain, hlen])
    exact ⟨hdomain, hvalue, le64_injective hheight, congrArg Int64.ofUInt64 (le64_injective htime)⟩
  · rintro ⟨hdomain, hvalue, hheight, htime⟩
    rw [Keeper.custodyDomain, Keeper.custodyDomain, ← custodyText, ← custodyText, hdomain, hvalue, hheight, htime]

/-- **Where a signature cannot be reused.**  For a hash of 32 bytes without collisions on the two domains: one payload
stands for one claim exactly if scope and source id are not joined to one string in two ways. -/
theorem custody_payload_inj_iff (hlen : ∀ b, (k.sha256 b).length = 32)
    (hsha : k.sha256 (custodyText c.scope c.sourceID) = k.sha256 (custodyText c'.scope c'.sourceID) →
      custodyText c.scope c.sourceID = custodyText c'.scope c'.sourceID) :
    (k.payloadOf c = k.payloadOf c' → c = c') ↔ ¬ SharesPayload c c' := by
  have hpair : c.scope ++ 0x2f :: c.sourceID = c'.scope ++ 0x2f :: c'.sourceID ↔
      (c.scope, c.sourceID) = (c'.scope, c'.sourceID) ∨ Ambiguous 0x2f (c.scope, c.sourceID) (c'.scope, c'.sourceID) :=
    append_sep_eq_iff (p := (c.scope, c.sourceID)) (q := (c'.scope, c'.sourceID))
  constructor
  · rintro h ⟨hshared, hrest⟩
    have htext := custodyText_eq_iff.mpr (hpair.mpr (.inr hshared))
    obtain rfl := h ((payloadOf_eq_iff hlen).mpr ⟨congrArg k.sha256 htext, hrest⟩)
    exact not_ambiguous_self _ _ hshared
  · intro h heq
    obtain ⟨hdomain, hrest⟩ := (payloadOf_eq_iff hlen).mp heq
    rcases hpair.mp (custodyText_eq_iff.mp (hsha hdomain)) with hsame | hshared
    · cases c
      simp_all
    · exact absurd ⟨hshared, hrest⟩ h

/-- A hash that keeps what follows the first 21 bytes, up to 32. -/
def custodyKeeper : Keeper Unit :=
  { Tables.keeper {} with sha256 := fun b => (b.drop 21 ++ List.replicate 32 0).take 32 }

/-- Two scopes without a slash. -/
theorem plain_scopes_separated :
    let c : CustodyClaim := ⟨ascii "price", ascii "src-a", ascii "v", 1, 100⟩
    let c' : CustodyClaim := { c with scope := ascii "root" }
    (∀ b, (custodyKeeper.sha256 b).length = 32) ∧ custodyKeeper.sha256 (custodyText c.scope c.sourceID) ≠
        custodyKeeper.sha256 (custodyText c'.scope c'.sourceID) ∧
      (custodyKeeper.payloadOf c = custodyKeeper.payloadOf c' → c = c') := by
  intro c c'
  have hlen : ∀ b, (custodyKeeper.sha256 b).length = 32 := by simp [custodyKeeper]
  have hne : custodyKeeper.sha256 (custodyText c.scope c.sourceID) ≠
      custodyKeeper.sha256 (custodyText c'.scope c'.sourceID) := by decide
  refine ⟨hlen, hne, (custody_payload_inj_iff hlen fun h => absurd h hne).mpr ?_⟩
  rintro ⟨hshared, -⟩
  exact not_ambiguous_of_not_mem (by decide) (by decide) hshared

/-- Whatever the hash is: `src-a` signs in the scope `price/oracle` what `oracle/src-a` signs in the scope `price`. -/
theorem slash_in_scope_shares_payload :
    let c : CustodyClaim := ⟨ascii "price/oracle", ascii "src-a", ascii "v", 1, 100⟩
    let c' : CustodyClaim := { c with scope := ascii "price", sourceID := ascii "oracle/src-a" }
    c ≠ c' ∧ ∀ k : Keeper Unit, k.payloadOf c = k.payloadOf c' := by
  intro c c'
  have htext : custodyText c.scope c.sourceID = custodyText c'.scope c'.sourceID := by decide
  refine ⟨by decide, fun k => ?_⟩
  simp only [Keeper.payloadOf, Keeper.custodyPayload, Keeper.custodyDomain]
  rw [← custodyText, ← custodyText, htext]

end Hashmerchant
