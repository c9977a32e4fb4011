/-
  The composite authenticators, `AllOf` and `AnyOf`, each with one signature for all its sub-authenticators or
  with one that is split into a part for each.
-/
import TerpCore.SmartAccount.Keeper

namespace SmartAccount

open Lib

variable {ρ : Type}

inductive SignatureAssignment where
  | single
  | partitioned
  deriving DecidableEq

/-- `baseId + "." + strconv.Itoa(subId)`. -/
def compositeId (baseId : Bytes) (subId : ℕ) : Bytes :=
  baseId ++ ascii "." ++ (Nat.toDigits 10 subId).map fun c => UInt8.ofNat c.toNat

/-- What the composite authenticators read with `json.Unmarshal`; `none` is an error. -/
structure CompositeJSON where
  signatures : Bytes → Option (List Bytes)
  /-- the type and the config of each sub-authenticator -/
  initDatas : Bytes → Option (List (Bytes × Bytes))

def Code.ofProc (p : Proc (Context ρ) Err Unit) : Code ρ := fun ctx =>
  ⟨(p ctx).1, (p ctx).2.store, (p ctx).2.gasMeter.consumed⟩

variable (json : CompositeJSON)

def splitSignatures (signature : Bytes) (total : ℕ) : Outcome Err (List Bytes) :=
  match json.signatures signature with
  | none => .error .parseSignatures
  | some signatures => if signatures.length ≠ total then .error .numberOfSignatures else .ok signatures

/-- The signatures of the sub-authenticators, if each has its own. -/
def assignedSignatures (assignment : SignatureAssignment) (signature : Bytes) (total : ℕ) : Outcome Err (List Bytes) :=
  match assignment with
  | .single => .ok []
  | .partitioned => splitSignatures json signature total

/-- The request for a sub-authenticator. -/
def subRequest (assignment : SignatureAssignment) (signatures : List Bytes) (request : AuthenticationRequest)
    (i : ℕ) : Outcome Err AuthenticationRequest :=
  let request := { request with authenticatorId := compositeId request.authenticatorId i }
  match assignment with
  | .single => .ok request
  | .partitioned =>
    match signatures[i]? with
    | none => .panicked
    | some signature => .ok { request with signature := signature }

def subTrack (request : AuthenticationRequest) (subAuthenticators : List (Authenticator ρ)) :
    Proc (Context ρ) Err Unit := do
  let _ ← .forEach (fun id (auth : Authenticator ρ) =>
    let request := { request with authenticatorId := compositeId request.authenticatorId id }
    .mapError (.subTrack · request.authenticatorId) (auth.track request).exec) 0 subAuthenticators

def staticGasOf (subAuthenticators : List (Authenticator ρ)) : UInt64 :=
  subAuthenticators.foldl (fun totalGas auth => totalGas + auth.staticGas) 0

/-! ## `AllOf` -/

namespace AllOf

variable (assignment : SignatureAssignment) (subAuthenticators : List (Authenticator ρ))

/-- The loop over the sub-authenticators: the first error is returned. -/
def callEach (call : Authenticator ρ → AuthenticationRequest → Code ρ) (signatures : List Bytes)
    (request : AuthenticationRequest) : Proc (Context ρ) Err Unit := do
  let _ ← .forEach (fun i auth => do
    let sub ← .ofOutcome (subRequest assignment signatures request i)
    (call auth sub).exec) 0 subAuthenticators

def authenticate (request : AuthenticationRequest) : Proc (Context ρ) Err Unit := do
  Proc.require (!subAuthenticators.isEmpty) .noSubAuthenticators
  let signatures ← .ofOutcome
    (assignedSignatures json assignment request.signature subAuthenticators.length)
  callEach assignment subAuthenticators Authenticator.authenticate signatures request

def confirmExecution (request : AuthenticationRequest) : Proc (Context ρ) Err Unit := do
  let signatures ← .ofOutcome
    (assignedSignatures json assignment request.signature subAuthenticators.length)
  callEach assignment subAuthenticators Authenticator.confirmExecution signatures request

def type : SignatureAssignment → Bytes
  | .single => ascii "AllOf"
  | .partitioned => ascii "PartitionedAllOf"

def toAuthenticator : Authenticator ρ where
  type := type assignment
  staticGas := staticGasOf subAuthenticators
  authenticate := fun request => .ofProc (authenticate json assignment subAuthenticators request)
  track := fun request => .ofProc (subTrack request subAuthenticators)
  confirmExecution := fun request => .ofProc (confirmExecution json assignment subAuthenticators request)

end AllOf

/-! ## `AnyOf` -/

namespace AnyOf

variable (assignment : SignatureAssignment) (subAuthenticators : List (Authenticator ρ))

/-- The loop over the children: it returns with the first that succeeds, and collects the errors before it. -/
def callUntil (call : Authenticator ρ → AuthenticationRequest → Proc (Context ρ) Err Unit)
    (signatures : List Bytes) (request : AuthenticationRequest)
    (failed : List (Bytes × Bytes × String) → Proc (Context ρ) Err Unit) :
    ℕ → List (Bytes × Bytes × String) → List (Authenticator ρ) → Proc (Context ρ) Err Unit
  | _, subAuthErrors, [] => failed subAuthErrors
  | i, subAuthErrors, auth :: rest => do
    let sub ← .ofOutcome (subRequest assignment signatures request i)
    .catchError (call auth sub) fun e =>
      callUntil call signatures request failed (i + 1)
        (subAuthErrors ++ [(auth.type, sub.authenticatorId, e.message)]) rest

def authenticate (request : AuthenticationRequest) : Proc (Context ρ) Err Unit := do
  Proc.require (!subAuthenticators.isEmpty) .noSubAuthenticators
  let signatures ← .ofOutcome
    (assignedSignatures json assignment request.signature subAuthenticators.length)
  callUntil assignment (fun auth sub => (auth.authenticate sub).exec) signatures request
    (fun subAuthErrors => if subAuthErrors = [] then pure () else .fail (.allFailedToAuthenticate subAuthErrors))
    0 [] subAuthenticators

/-- Code in a cache that is written only if it succeeds. -/
def writeOnSuccess (p : Proc (Context ρ) Err Unit) : Proc (Context ρ) Err Unit := fun ctx =>
  match p ctx with
  | (.ok _, ctx') => (.ok (), ctx')
  | (x, ctx') => (x, { ctx' with store := ctx.store })

def confirmExecution (request : AuthenticationRequest) : Proc (Context ρ) Err Unit := do
  let signatures ← .ofOutcome
    (assignedSignatures json assignment request.signature subAuthenticators.length)
  callUntil assignment (fun auth sub => writeOnSuccess (auth.confirmExecution sub).exec) signatures request
    (fun subAuthErrors => .fail (.allFailedToConfirm subAuthErrors)) 0 [] subAuthenticators

def type : SignatureAssignment → Bytes
  | .single => ascii "AnyOf"
  | .partitioned => ascii "PartitionedAnyOf"

def toAuthenticator : Authenticator ρ where
  type := type assignment
  staticGas := staticGasOf subAuthenticators
  authenticate := fun request => .ofProc (authenticate json assignment subAuthenticators request)
  track := fun request => .ofProc (subTrack request subAuthenticators)
  confirmExecution := fun request => .ofProc (confirmExecution json assignment subAuthenticators request)

end AnyOf

/-! ## Registration -/

section registration

variable (am : Bytes → Option (RegisteredAuthenticator ρ))

/-- The loop of `Initialize`.  The authenticator of an unknown type is nil, and so may an instance be: both panic when
called. -/
def initializeSubs : List (Bytes × Bytes) → Outcome Err (List (Authenticator ρ))
  | [] => .ok []
  | (type, config) :: initDatas =>
    match am type with
    | none => .panicked
    | some authenticatorCode =>
      match authenticatorCode.initializeConfig config with
      | .error e => .error (.initializeSub e type)
      | .panicked | .ok none => .panicked
      | .ok (some inst) => do
        let rest ← initializeSubs initDatas
        .ok (inst :: rest)

def initializeComposite (kind : CompositeKind) (assignment : SignatureAssignment) (config : Bytes) :
    Outcome Err (Option (Authenticator ρ)) :=
  match json.initDatas config with
  | none => .error .parseInitData
  | some initDatas =>
    if initDatas.length ≤ 1 then .error (.tooFewSubAuthenticators kind)
    else do
      let subAuthenticators ← initializeSubs am initDatas
      .ok (some (match kind with
        | .allOf => AllOf.toAuthenticator json assignment subAuthenticators
        | .anyOf => AnyOf.toAuthenticator json assignment subAuthenticators))

/-- The loop of `onSubAuthenticatorsAdded` and of `onSubAuthenticatorsRemoved`. -/
def onEachSub (added : Bool) (call : RegisteredAuthenticator ρ → Bytes → Bytes → Code ρ)
    (wrap : Err → Bytes → Err) (baseId : Bytes) (initDatas : List (Bytes × Bytes)) :
    Proc (Context ρ) Err Unit := do
  let _ ← .forEach (fun id (initData : Bytes × Bytes) =>
    match am initData.1 with
    | none => .fail (.subNotRegistered added)
    | some authenticatorCode =>
      .mapError (wrap · (compositeId baseId id))
        (call authenticatorCode initData.2 (compositeId baseId id)).exec) 0 initDatas

def onSubAuthenticatorsAdded (account data authenticatorId : Bytes) : Proc (Context ρ) Err Unit :=
  match json.initDatas data with
  | none => .fail .unmarshalInitData
  | some initDatas => do
    if initDatas.length ≤ 1 then .fail (.tooFewProvided initDatas.length)
    onEachSub am true (fun code config subId => code.onAuthenticatorAdded account config subId) .subAdded
      authenticatorId initDatas

def onSubAuthenticatorsRemoved (account data authenticatorId : Bytes) : Proc (Context ρ) Err Unit :=
  match json.initDatas data with
  | none => .fail (.external (ascii "json"))
  | some initDatas =>
    onEachSub am false (fun code config subId => code.onAuthenticatorRemoved account config subId) .subRemoved
      authenticatorId initDatas

def registeredComposite (kind : CompositeKind) (assignment : SignatureAssignment) :
    RegisteredAuthenticator ρ where
  initializeConfig := initializeComposite json am kind assignment
  onAuthenticatorAdded := fun account config id => .ofProc (onSubAuthenticatorsAdded json am account config id)
  onAuthenticatorRemoved := fun account config id =>
    .ofProc (onSubAuthenticatorsRemoved json am account config id)

end registration

end SmartAccount
