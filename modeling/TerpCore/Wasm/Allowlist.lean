/-
  The messages that edit the upload rules, one address list at a time.

  All four handlers edit the list for code.
-/
import TerpCore.Wasm.Rows

namespace Wasm

open Lib Outcome List

variable {ν β : Type}

/-! ## The handlers -/

/-- The keeper with its authority. -/
structure MsgServer (ν β : Type) extends Keeper ν β where
  /-- `GetAuthority` -/
  authority : Bytes

/-- Addresses that are not on the list are appended. -/
def addAddresses (addresses given : List Bytes) : List Bytes :=
  given.foldl (fun addresses newAddr =>
    if addresses.contains newAddr then addresses else addresses ++ [newAddr]) addresses

def removeAddresses (addresses given : List Bytes) : List Bytes := addresses.filter (!given.contains ·)

/-- `ValidateBasic` of the four messages. -/
def Keeper.validateUploadAddresses (k : Keeper ν β) (authority : Bytes) (addresses : List Bytes) :
    Outcome Err Unit := do
  require (k.accAddressFromBech32 authority).isSome (.wrap "authority" .outside)
  k.validateBech32Addresses addresses

/-- The list for code is replaced. -/
def Params.setCodeAddresses (p : Params) (addresses : List Bytes) : Params :=
  { p with codeUploadAccess := ⟨p.codeUploadAccess.permission, addresses⟩ }

/-- Reads the parameters, edits the list for code and writes them back. -/
def editCodeUploadAddresses (edit : List Bytes → List Bytes) (s : State ν β) : Outcome Err (State ν β) := do
  let params ← getParams s.store
  require (params.codeUploadAccess.permission = .anyOfAddresses) (.wrap "permission" .invalid)
  return { s with store := setParams s.store (params.setCodeAddresses (edit params.codeUploadAccess.addresses)) }

namespace MsgServer

variable (m : MsgServer ν β) (s : State ν β) (authority : Bytes) (addresses : List Bytes)

/-- The check of the circuit messages. -/
def requireAuthority : Outcome Err Unit :=
  require (m.authority = authority) (.wrap "invalid authority; expected %s, got %s" .invalid)

/-- `AddCircuitUploadParamsAddresses`, which edits the list for code. -/
def addCircuitUploadParamsAddresses : Outcome Err (State ν β) := do
  m.validateUploadAddresses authority addresses
  m.requireAuthority authority
  editCodeUploadAddresses (addAddresses · addresses) s

def addCodeUploadParamsAddresses : Outcome Err (State ν β) := do
  m.validateUploadAddresses authority addresses
  require (m.isAuthority authority) .outside
  editCodeUploadAddresses (addAddresses · addresses) s

/-- `RemoveCircuitUploadParamsAddresses`, which edits the list for code. -/
def removeCircuitUploadParamsAddresses : Outcome Err (State ν β) := do
  m.validateUploadAddresses authority addresses
  m.requireAuthority authority
  editCodeUploadAddresses (removeAddresses · addresses) s

def removeCodeUploadParamsAddresses : Outcome Err (State ν β) := do
  m.validateUploadAddresses authority addresses
  require (m.isAuthority authority) .outside
  editCodeUploadAddresses (removeAddresses · addresses) s

end MsgServer

/-! ## What they do -/

theorem addAddresses_cons (addresses : List Bytes) (newAddr : Bytes) (given : List Bytes) :
    addAddresses addresses (newAddr :: given) =
      addAddresses (if addresses.contains newAddr then addresses else addresses ++ [newAddr]) given := rfl

theorem mem_addAddresses {a : Bytes} (given : List Bytes) : ∀ addresses : List Bytes,
    a ∈ addAddresses addresses given ↔ a ∈ addresses ∨ a ∈ given := by
  induction given with
  | nil => simp [addAddresses]
  | cons newAddr given ih =>
    intro addresses
    rw [addAddresses_cons, ih]
    split_ifs with hmem
    · constructor
      · rintro (h | h)
        · exact .inl h
        · exact Or.inr (mem_cons_of_mem _ h)
      · rintro (h | h)
        · exact .inl h
        · rcases mem_cons.mp h with rfl | h
          · exact Or.inl (contains_iff_mem.mp hmem)
          · exact .inr h
    · simp [or_assoc]

variable {addresses given : List Bytes}

theorem addAddresses_eq_self : addAddresses addresses given = addresses ↔ ∀ a ∈ given, a ∈ addresses := by
  constructor
  · intro heq a ha
    rw [← heq, mem_addAddresses]
    exact .inr ha
  · intro hsub
    induction given with
    | nil => rfl
    | cons newAddr given ih =>
      rw [forall_mem_cons] at hsub
      rw [addAddresses_cons, if_pos (contains_iff_mem.mpr hsub.1), ih hsub.2]

theorem removeAddresses_eq_self : removeAddresses addresses given = addresses ↔ ∀ a ∈ given, a ∉ addresses := by
  rw [removeAddresses, filter_eq_self]
  constructor
  · intro hall a ha hmem
    simpa [ha] using hall a hmem
  · intro hnone a hmem
    simpa using fun ha => hnone a ha hmem

theorem editCodeUploadAddresses_eq_ok {edit : List Bytes → List Bytes} {s s' : State ν β} {p : Params}
    (hp : getParams s.store = .ok p) (h : editCodeUploadAddresses edit s = .ok s') :
    getParams s'.store = .ok (p.setCodeAddresses (edit p.codeUploadAccess.addresses)) := by
  unfold editCodeUploadAddresses at h
  rw [hp, ok_bind] at h
  obtain ⟨_, -, h⟩ := bind_eq_ok.mp h
  cases h
  exact getParams_eq_ok.mpr (row_put_self ..)

theorem setCodeAddresses_eq_self {p : Params} :
    p.setCodeAddresses addresses = p ↔ addresses = p.codeUploadAccess.addresses := by
  constructor
  · intro heq
    rw [← heq]
    rfl
  · rintro rfl
    rfl

/-! ## The list for circuits -/

/-- The list for circuits has become `after`, nothing else has changed, and the rule for circuits answers `verdict`
for each address. -/
structure CircuitListEdited (k : Keeper ν β) (after : Bytes → Prop) (verdict : Bool) (given : List Bytes)
    (p p' : Params) : Prop where
  frame : p' = { p with circuitUploadAccess :=
    ⟨p.circuitUploadAccess.permission, p'.circuitUploadAccess.addresses⟩ }
  list : ∀ a, a ∈ p'.circuitUploadAccess.addresses ↔ after a
  rule : ∀ a ∈ given, ∀ addr, k.accAddressFromBech32 a = some addr →
    p'.circuitUploadAccessConfig.allowed (k.bech32 addr) = some verdict
  code : ∀ actor, p'.codeUploadAccess.allowed actor = p.codeUploadAccess.allowed actor

/-- An edit of the list for code does the work of one of the list for circuits only if there is nothing to do and the
rule answers as it should. -/
theorem circuitListEdited_setCodeAddresses_iff {k : Keeper ν β} {after : Bytes → Prop} {verdict : Bool} {p : Params} :
    CircuitListEdited k after verdict given p (p.setCodeAddresses addresses) ↔
      addresses = p.codeUploadAccess.addresses ∧ (∀ a, a ∈ p.circuitUploadAccess.addresses ↔ after a) ∧
        ∀ a ∈ given, ∀ addr, k.accAddressFromBech32 a = some addr →
          p.circuitUploadAccessConfig.allowed (k.bech32 addr) = some verdict := by
  constructor
  · rintro ⟨hframe, hlist, hrule, -⟩
    have hsame : p.setCodeAddresses addresses = p := hframe
    rw [hsame] at hlist hrule
    exact ⟨setCodeAddresses_eq_self.mp hsame, hlist, hrule⟩
  · rintro ⟨haddresses, hlist, hrule⟩
    rw [setCodeAddresses_eq_self.mpr haddresses]
    exact ⟨rfl, hlist, hrule, fun _ => rfl⟩

/-- A message to the circuit list does what it is for if, and only if, there is nothing to do. -/
theorem circuit_list_edited_iff (m : MsgServer ν β) {s s' : State ν β} {p : Params} (authority : Bytes)
    (given : List Bytes) (hp : getParams s.store = .ok p) :
    (m.addCircuitUploadParamsAddresses s authority given = .ok s' →
      ∃ p', getParams s'.store = .ok p' ∧
        (CircuitListEdited m.toKeeper (fun a => a ∈ p.circuitUploadAccess.addresses ∨ a ∈ given) true given p p' ↔
          (∀ a ∈ given, a ∈ p.codeUploadAccess.addresses) ∧ (∀ a ∈ given, a ∈ p.circuitUploadAccess.addresses) ∧
            ∀ a ∈ given, ∀ addr, m.accAddressFromBech32 a = some addr →
              p.circuitUploadAccessConfig.allowed (m.bech32 addr) = some true)) ∧
    (m.removeCircuitUploadParamsAddresses s authority given = .ok s' →
      ∃ p', getParams s'.store = .ok p' ∧
        (CircuitListEdited m.toKeeper (fun a => a ∈ p.circuitUploadAccess.addresses ∧ a ∉ given) false given p p' ↔
          (∀ a ∈ given, a ∉ p.codeUploadAccess.addresses) ∧ (∀ a ∈ given, a ∉ p.circuitUploadAccess.addresses) ∧
            ∀ a ∈ given, ∀ addr, m.accAddressFromBech32 a = some addr →
              p.circuitUploadAccessConfig.allowed (m.bech32 addr) = some false)) := by
  constructor
  · intro h
    obtain ⟨_, -, h⟩ := bind_eq_ok.mp h
    obtain ⟨_, -, h⟩ := bind_eq_ok.mp h
    refine ⟨_, editCodeUploadAddresses_eq_ok hp h, ?_⟩
    have hlist : (∀ a, a ∈ p.circuitUploadAccess.addresses ↔ a ∈ p.circuitUploadAccess.addresses ∨ a ∈ given) ↔
        ∀ a ∈ given, a ∈ p.circuitUploadAccess.addresses := by
      constructor
      · exact fun hall a ha => (hall a).mpr (.inr ha)
      · intro hsub a
        constructor
        · exact .inl
        · rintro (hmem | hmem)
          · exact hmem
          · exact hsub a hmem
    rw [circuitListEdited_setCodeAddresses_iff, addAddresses_eq_self, hlist]
  · intro h
    obtain ⟨_, -, h⟩ := bind_eq_ok.mp h
    obtain ⟨_, -, h⟩ := bind_eq_ok.mp h
    refine ⟨_, editCodeUploadAddresses_eq_ok hp h, ?_⟩
    have hlist : (∀ a, a ∈ p.circuitUploadAccess.addresses ↔ a ∈ p.circuitUploadAccess.addresses ∧ a ∉ given) ↔
        ∀ a ∈ given, a ∉ p.circuitUploadAccess.addresses := by
      constructor
      · exact fun hall a ha hmem => ((hall a).mp hmem).2 ha
      · intro hnone a
        constructor
        · exact fun hmem => ⟨hmem, fun ha => hnone a ha hmem⟩
        · exact And.left
    rw [circuitListEdited_setCodeAddresses_iff, removeAddresses_eq_self, hlist]

namespace Tables

def server : MsgServer Files Unit := { sample.keeper with authority := string (account 3) }

def listParams : Params where
  codeUploadAccess := ⟨.anyOfAddresses, [string (account 1)]⟩
  instantiateDefaultPermission := .everybody
  circuitUploadAccess := ⟨.anyOfAddresses, [string (account 1)]⟩
  circuitDevDestination := []

def listState : State Files Unit := ⟨setParams .empty listParams, {}, ()⟩

end Tables

open Tables in
/-- Account 1 is added once more. -/
theorem listed_account_added :
    ∃ s' p', server.addCircuitUploadParamsAddresses listState (string (account 3)) [string (account 1)] = .ok s' ∧
      getParams s'.store = .ok p' ∧
      CircuitListEdited server.toKeeper (fun a => a ∈ listParams.circuitUploadAccess.addresses ∨
        a ∈ [string (account 1)]) true [string (account 1)] listParams p' := by
  have hp : getParams listState.store = .ok listParams := by decide +kernel
  have hok : (server.addCircuitUploadParamsAddresses listState (string (account 3))
      [string (account 1)]).isOk = true := by decide +kernel
  obtain ⟨s', hs'⟩ := isOk_iff.mp hok
  obtain ⟨p', hp', hiff⟩ := (circuit_list_edited_iff server (string (account 3)) [string (account 1)] hp).1 hs'
  refine ⟨s', p', hs', hp', hiff.mpr ⟨by decide +kernel, by decide +kernel, ?_⟩⟩
  intro a ha addr haddr
  rw [mem_singleton.mp ha] at haddr
  obtain rfl : account 1 = addr := Option.some.inj haddr
  decide +kernel

open Tables in
/-- Account 2 is added to the list for circuits: it may upload code afterwards, and no circuits. -/
theorem circuit_address_added_to_code :
    ∃ s' p', server.addCircuitUploadParamsAddresses listState (string (account 3)) [string (account 2)] = .ok s' ∧
      getParams s'.store = .ok p' ∧
      p'.circuitUploadAccess = listParams.circuitUploadAccess ∧
      p'.circuitUploadAccessConfig.allowed (server.bech32 (account 2)) = some false ∧
      listParams.codeUploadAccess.allowed (server.bech32 (account 2)) = some false ∧
      p'.codeUploadAccess.allowed (server.bech32 (account 2)) = some true ∧
      ¬ CircuitListEdited server.toKeeper (fun a => a ∈ listParams.circuitUploadAccess.addresses ∨
        a ∈ [string (account 2)]) true [string (account 2)] listParams p' := by
  have hp : getParams listState.store = .ok listParams := by decide +kernel
  have hok : (server.addCircuitUploadParamsAddresses listState (string (account 3))
      [string (account 2)]).isOk = true := by decide +kernel
  obtain ⟨s', hs'⟩ := isOk_iff.mp hok
  have h := hs'
  obtain ⟨_, -, h⟩ := bind_eq_ok.mp h
  obtain ⟨_, -, h⟩ := bind_eq_ok.mp h
  refine ⟨s', _, hs', editCodeUploadAddresses_eq_ok hp h, rfl, by decide +kernel, by decide +kernel,
    by decide +kernel, fun hedited => ?_⟩
  exact absurd (hedited.code (server.bech32 (account 2))) (by decide +kernel)

end Wasm
