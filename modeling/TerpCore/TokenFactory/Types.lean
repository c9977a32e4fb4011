/-
  Parameters, keys, denominations and the genesis format of x/tokenfactory.

  `deconstructDenom` reads the creator as an address and returns it as that address is written.
-/
import TerpCore.Lib.Address
import TerpCore.Lib.Coins
import TerpCore.Lib.KVStore
import TerpCore.Lib.Outcome
import TerpCore.Lib.Split

namespace TokenFactory

open Lib Outcome

/-! ## Errors -/

/-- The errors of the module. -/
inductive Err where
  | denomExists
  | unauthorized
  /-- `ErrInvalidDenom`, around the error of `GetTokenDenom` -/
  | invalidDenom (cause : Err)
  | notEnoughParts (denom : Bytes)
  | denomPrefix (got : Bytes)
  | invalidCreatorAddress
  | invalidCreator
  | invalidAdminAddress
  | duplicateDenom (denom : Bytes)
  | subdenomTooLong
  | creatorTooLong
  | denomDoesNotExist (denom : Bytes)
  | capabilityNotEnabled
  | invalidSender
  | invalidDenomCreationFee
  | mintToBlocked (addr : AccAddress)
  | burnFromBlocked (addr : AccAddress)
  | forceTransferToBlocked (addr : AccAddress)
  | invalidSigner (expected got : Bytes)
  /-- `sdk.ValidateDenom` -/
  | sdkDenom
  /-- `sdk.AccAddressFromBech32` -/
  | sdkAddress
  /-- `banktypes.Metadata.Validate` -/
  | sdkMetadata
  /-- a row that does not decode -/
  | decode
  /-- whatever the bank keeper or the community pool answers -/
  | bank
  deriving DecidableEq

/-- The text of an error, as a format; a wrapped error ends with the text of its class. -/
def Err.format : Err → String
  | denomExists => "attempting to create a denom that already exists (has bank metadata)"
  | unauthorized => "unauthorized account"
  | invalidDenom _ => "%s: invalid denom"
  | notEnoughParts _ => "not enough parts of denom %s: invalid denom"
  | denomPrefix _ => "denom prefix is incorrect. Is: %s.  Should be: factory: invalid denom"
  | invalidCreatorAddress => "Invalid creator address (%s): invalid denom"
  | invalidCreator => "invalid creator"
  | invalidAdminAddress => "Invalid admin address (%s): invalid authority metadata"
  | duplicateDenom _ => "duplicate denom: %s: invalid genesis"
  | subdenomTooLong => "subdenom too long, max length is 44 bytes"
  | creatorTooLong => "creator too long, max length is 75 bytes"
  | denomDoesNotExist _ => "denom: %s: denom does not exist"
  | capabilityNotEnabled => "this capability is not enabled on chain"
  | invalidSender => "Invalid sender address (%s): invalid address"
  | invalidDenomCreationFee => "invalid denom creation fee: %+v"
  | mintToBlocked _ => "failed to mint to blocked address: %s"
  | burnFromBlocked _ => "failed to burn from blocked address: %s"
  | forceTransferToBlocked _ => "failed to force transfer to blocked address: %s"
  | invalidSigner _ _ => "invalid authority; expected %s, got %s: expected gov account as only signer for proposal message"
  | sdkDenom | sdkAddress | sdkMetadata | decode | bank => "%s"

/-! ## Parameters -/

/-- The parameters of the module. -/
structure Params where
  denomCreationFee : List Coin
  denomCreationGasConsume : UInt64
  deriving DecidableEq

/-- The answer of `GetParams` before any are set. -/
def Params.zero : Params := ⟨[], 0⟩

def defaultBondDenom : Bytes := ascii "uterp"

def defaultParams : Params := ⟨[⟨defaultBondDenom, 10000000⟩], 2000000⟩

/-- `Validate` of the parameters. -/
def Params.validate (p : Params) : Outcome Err Unit :=
  require (validCoins p.denomCreationFee) .invalidDenomCreationFee

theorem validate_defaultParams : defaultParams.validate = .ok () := by decide +kernel

/-! ## Keys -/

def paramsKey : Bytes := [0x00]

def keySeparator : UInt8 := 0x7c

def denomAuthorityMetadataKey : Bytes := ascii "authoritymetadata"

def denomsPrefixKey : Bytes := ascii "denoms"

def creatorPrefixKey : Bytes := ascii "creator"

def getDenomPrefixStore (denom : Bytes) : Bytes := join keySeparator [denomsPrefixKey, denom, []]

def getCreatorPrefix (creator : Bytes) : Bytes := join keySeparator [creatorPrefixKey, creator, []]

def getCreatorsPrefix : Bytes := join keySeparator [creatorPrefixKey, []]

def authorityKey (denom : Bytes) : Bytes := getDenomPrefixStore denom ++ denomAuthorityMetadataKey

def creatorKey (creator denom : Bytes) : Bytes := getCreatorPrefix creator ++ denom

theorem creatorKey_eq (creator denom : Bytes) :
    creatorKey creator denom = getCreatorsPrefix ++ (creator ++ keySeparator :: denom) := by
  simp [creatorKey, getCreatorPrefix, getCreatorsPrefix]

theorem authorityKey_injective {d d' : Bytes} (h : authorityKey d = authorityKey d') : d = d' := by
  simpa [authorityKey, getDenomPrefixStore] using h

theorem authorityKey_ne_creators (denom rest : Bytes) : authorityKey denom ≠ getCreatorsPrefix ++ rest := by
  intro h
  have hhead := congrArg List.head? h
  simp [authorityKey, getDenomPrefixStore, getCreatorsPrefix, denomsPrefixKey, creatorPrefixKey, ascii] at hhead

theorem paramsKey_ne_authorityKey (denom : Bytes) : paramsKey ≠ authorityKey denom := by
  intro h
  have hhead := congrArg List.head? h
  simp [authorityKey, getDenomPrefixStore, paramsKey, denomsPrefixKey, ascii] at hhead

theorem paramsKey_ne_creators (rest : Bytes) : paramsKey ≠ getCreatorsPrefix ++ rest := by
  intro h
  have hhead := congrArg List.head? h
  simp [getCreatorsPrefix, paramsKey, creatorPrefixKey, ascii] at hhead

/-- The entries of denominations without a separator are told apart, whatever the creators are. -/
theorem creatorKey_inj {c c' d d' : Bytes} (hd : keySeparator ∉ d) (hd' : keySeparator ∉ d') :
    creatorKey c d = creatorKey c' d' ↔ c = c' ∧ d = d' := by
  constructor
  · intro h
    rw [creatorKey_eq, creatorKey_eq] at h
    exact append_sep_inj_right hd hd' (List.append_cancel_left h)
  · rintro ⟨rfl, rfl⟩
    rfl

/-! ## Denominations -/

def moduleDenomPrefix : Bytes := ascii "factory"

def maxSubdenomLength : ℕ := 44

def maxHrpLength : ℕ := 16

def maxCreatorLength : ℕ := 59 + maxHrpLength

def slash : UInt8 := 0x2f

def factoryDenom (creator subdenom : Bytes) : Bytes := join slash [moduleDenomPrefix, creator, subdenom]

def getTokenDenom (creator subdenom : Bytes) : Outcome Err Bytes := do
  require (!(maxSubdenomLength < subdenom.length)) .subdenomTooLong
  require (!(maxCreatorLength < creator.length)) .creatorTooLong
  require (!creator.contains slash) .invalidCreator
  let denom := factoryDenom creator subdenom
  require (validDenom denom) .sdkDenom
  return denom

/-- The creator, as the address is written, and the subdenomination. -/
def deconstructDenom (codec : Bech32) (denom : Bytes) : Outcome Err (Bytes × Bytes) := do
  require (validDenom denom) .sdkDenom
  match split slash denom with
  | part :: creator :: next :: rest =>
    require (part == moduleDenomPrefix) (.denomPrefix part)
    match codec.accAddressFromBech32 creator with
    | none => .error .invalidCreatorAddress
    | some addr => return (codec.string addr, join slash (next :: rest))
  | _ => .error (.notEnoughParts denom)

theorem not_mem_moduleDenomPrefix : slash ∉ moduleDenomPrefix := by decide

theorem split_factoryDenom {creator : Bytes} (hcreator : slash ∉ creator) (subdenom : Bytes) :
    split slash (factoryDenom creator subdenom) = moduleDenomPrefix :: creator :: split slash subdenom := by
  rw [factoryDenom, join_cons_cons, join_cons_cons, join_singleton, split_append not_mem_moduleDenomPrefix,
    split_append hcreator]

theorem factoryDenom_inj {c c' sub sub' : Bytes} (hc : slash ∉ c) (hc' : slash ∉ c')
    (h : factoryDenom c sub = factoryDenom c' sub') : c = c' ∧ sub = sub' := by
  have hsplit := congrArg (split slash) h
  rw [split_factoryDenom hc, split_factoryDenom hc', List.cons.injEq, List.cons.injEq] at hsplit
  refine ⟨hsplit.2.1, ?_⟩
  rw [← join_split slash sub, ← join_split slash sub', hsplit.2.2]

theorem getTokenDenom_eq_ok {creator subdenom denom : Bytes} (h : getTokenDenom creator subdenom = .ok denom) :
    denom = factoryDenom creator subdenom ∧ slash ∉ creator ∧ validDenom denom = true := by
  simp only [getTokenDenom, bind_eq_ok, require_eq_ok, pure_eq, ok.injEq] at h
  obtain ⟨-, -, -, -, -, hslash, -, hvalid, rfl⟩ := h
  exact ⟨rfl, by simpa using hslash, hvalid⟩

variable {codec : Bech32}

theorem deconstructDenom_factoryDenom {creator : Bytes} {addr : AccAddress} (hcreator : slash ∉ creator)
    (haddr : codec.accAddressFromBech32 creator = some addr) (subdenom : Bytes)
    (hvalid : validDenom (factoryDenom creator subdenom) = true) :
    deconstructDenom codec (factoryDenom creator subdenom) = .ok (codec.string addr, subdenom) := by
  obtain ⟨next, rest, hrest⟩ := List.exists_cons_of_ne_nil (split_ne_nil slash subdenom)
  simp only [deconstructDenom, hvalid, split_factoryDenom hcreator, hrest, haddr, require_of,
    beq_self_eq_true, ok_bind, pure_eq]
  rw [← hrest, join_split]

theorem deconstructDenom_eq_ok {denom creator subdenom : Bytes}
    (h : deconstructDenom codec denom = .ok (creator, subdenom)) :
    validDenom denom = true ∧ ∃ text addr, denom = factoryDenom text subdenom ∧ slash ∉ text ∧
      codec.accAddressFromBech32 text = some addr ∧ creator = codec.string addr := by
  obtain ⟨_, hvalid, h⟩ := bind_eq_ok.mp h
  refine ⟨require_eq_ok.mp hvalid, ?_⟩
  rcases hsplit : split slash denom with _ | ⟨part, _ | ⟨text, _ | ⟨next, rest⟩⟩⟩
  · simp [hsplit] at h
  · simp [hsplit] at h
  · simp [hsplit] at h
  · rw [hsplit] at h
    obtain ⟨_, hpart, h⟩ := bind_eq_ok.mp h
    rcases haddr : codec.accAddressFromBech32 text with _ | addr
    · simp [haddr] at h
    · rw [haddr] at h
      cases h
      have htext : slash ∉ text := not_mem_of_mem_split (by rw [hsplit]; simp)
      refine ⟨text, addr, ?_, htext, haddr, rfl⟩
      rw [← join_split slash denom, hsplit, eq_of_beq (require_eq_ok.mp hpart)]
      rfl

theorem keySeparator_not_mem {denom : Bytes} (h : validDenom denom = true) : keySeparator ∉ denom := by
  intro hmem
  cases denom with
  | nil => cases hmem
  | cons =>
    simp only [validDenom, Bool.and_eq_true, List.all_eq_true] at h
    obtain ⟨⟨⟨hletter, hrest⟩, -⟩, -⟩ := h
    rcases List.mem_cons.mp hmem with rfl | hmem
    · exact absurd hletter (by decide)
    · exact absurd (hrest _ hmem) (by decide)

/-! ## Stored values -/

structure DenomAuthorityMetadata where
  admin : Bytes
  deriving DecidableEq

/-- An admin is an address, or there is none. -/
def DenomAuthorityMetadata.validate (codec : Bech32) (m : DenomAuthorityMetadata) : Outcome Err Unit :=
  if m.admin = [] then .ok ()
  else require (codec.accAddressFromBech32 m.admin).isSome .sdkAddress

inductive Value where
  | params (p : Params)
  | authority (m : DenomAuthorityMetadata)
  /-- an entry of the index, whose value is the denomination again -/
  | denom (denom : Bytes)
  deriving DecidableEq

structure DenomUnit where
  denom : Bytes
  exponent : UInt32
  aliases : List Bytes
  deriving DecidableEq

structure Metadata where
  description : Bytes
  denomUnits : List DenomUnit
  base : Bytes
  display : Bytes
  name : Bytes
  symbol : Bytes
  uri : Bytes
  uriHash : Bytes
  deriving DecidableEq

/-- What a new denomination is described as. -/
def newMetadata (denom : Bytes) : Metadata where
  description := []
  denomUnits := [⟨denom, 0, []⟩]
  base := denom
  display := denom
  name := denom
  symbol := denom
  uri := []
  uriHash := []

/-! ## Genesis -/

structure GenesisDenom where
  denom : Bytes
  authorityMetadata : DenomAuthorityMetadata
  deriving DecidableEq

structure GenesisState where
  params : Params
  factoryDenoms : List GenesisDenom
  deriving DecidableEq

/-- The loop of the validation; `seen` holds the denominations met so far. -/
def checkDenoms (codec : Bech32) (seen : List Bytes) : List GenesisDenom → Outcome Err Unit
  | [] => .ok ()
  | g :: gs => do
    require (!seen.contains g.denom) (.duplicateDenom g.denom)
    let _ ← deconstructDenom codec g.denom
    require (g.authorityMetadata.admin == [] ||
      (codec.accAddressFromBech32 g.authorityMetadata.admin).isSome) .invalidAdminAddress
    checkDenoms codec (g.denom :: seen) gs

def GenesisState.validate (codec : Bech32) (gs : GenesisState) : Outcome Err Unit := do
  gs.params.validate
  checkDenoms codec [] gs.factoryDenoms

end TokenFactory
