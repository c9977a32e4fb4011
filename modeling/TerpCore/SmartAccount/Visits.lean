/-
  What the leaves of a tree are given.  The composite authenticators are followed with a log of the calls of their
  leaves: where the leaf is, the id and the signature.
-/
import TerpCore.Lib.Logged
import TerpCore.Lib.Pairs
import TerpCore.SmartAccount.Formula
import TerpCore.SmartAccount.Manager

namespace SmartAccount

open Lib Proc List

variable {ρ : Type}

/-- A call of the leaf at a path; the hooks get no signature. -/
structure Visit where
  path : List ℕ
  id : Bytes
  signature : Option Bytes
  deriving DecidableEq

inductive Method where
  | authenticate
  | track
  | confirmExecution
  deriving DecidableEq

inductive Hook where
  | added
  | removed
  deriving DecidableEq

def Authenticator.call (auth : Authenticator ρ) : Method → AuthenticationRequest → Code ρ
  | .authenticate => auth.authenticate
  | .track => auth.track
  | .confirmExecution => auth.confirmExecution

def RegisteredAuthenticator.call (r : RegisteredAuthenticator ρ) : Hook → (account config id : Bytes) → Code ρ
  | .added => r.onAuthenticatorAdded
  | .removed => r.onAuthenticatorRemoved

/-! ## The composites with a log -/

/-- An authenticator with a log of the calls of its leaves. -/
structure LoggedAuthenticator (ρ : Type) where
  type : Bytes
  call : Method → AuthenticationRequest → Proc (Context ρ × List Visit) Err Unit

section logged

variable (json : CompositeJSON) (assignment : SignatureAssignment) (subAuthenticators : List (LoggedAuthenticator ρ))

def subTrackLogged (request : AuthenticationRequest) : Proc (Context ρ × List Visit) Err Unit := do
  let _ ← .forEach (fun id (auth : LoggedAuthenticator ρ) =>
    let request := { request with authenticatorId := compositeId request.authenticatorId id }
    .mapError (.subTrack · request.authenticatorId) (auth.call .track request)) 0 subAuthenticators

def AllOf.callEachLogged (method : Method) (signatures : List Bytes) (request : AuthenticationRequest) :
    Proc (Context ρ × List Visit) Err Unit := do
  let _ ← .forEach (fun i (auth : LoggedAuthenticator ρ) => do
    let sub ← .ofOutcome (subRequest assignment signatures request i)
    auth.call method sub) 0 subAuthenticators

def AnyOf.callUntilLogged
    (call : LoggedAuthenticator ρ → AuthenticationRequest → Proc (Context ρ × List Visit) Err Unit)
    (signatures : List Bytes) (request : AuthenticationRequest)
    (failed : List (Bytes × Bytes × String) → Proc (Context ρ × List Visit) Err Unit) :
    ℕ → List (Bytes × Bytes × String) → List (LoggedAuthenticator ρ) → Proc (Context ρ × List Visit) Err Unit
  | _, subAuthErrors, [] => failed subAuthErrors
  | i, subAuthErrors, auth :: rest => do
    let sub ← .ofOutcome (subRequest assignment signatures request i)
    .catchError (call auth sub) fun e =>
      callUntilLogged call signatures request failed (i + 1)
        (subAuthErrors ++ [(auth.type, sub.authenticatorId, e.message)]) rest

def compositeLogged (kind : CompositeKind) (request : AuthenticationRequest) :
    Method → Proc (Context ρ × List Visit) Err Unit
  | .track => subTrackLogged subAuthenticators request
  | .authenticate => do
    require (!subAuthenticators.isEmpty) .noSubAuthenticators
    let signatures ← .ofOutcome
      (assignedSignatures json assignment request.signature subAuthenticators.length)
    match kind with
    | .allOf => AllOf.callEachLogged assignment subAuthenticators .authenticate signatures request
    | .anyOf =>
      AnyOf.callUntilLogged assignment (fun auth sub => auth.call .authenticate sub) signatures request
        (fun subAuthErrors =>
          if subAuthErrors = [] then pure () else .fail (.allFailedToAuthenticate subAuthErrors))
        0 [] subAuthenticators
  | .confirmExecution => do
    let signatures ← .ofOutcome
      (assignedSignatures json assignment request.signature subAuthenticators.length)
    match kind with
    | .allOf => AllOf.callEachLogged assignment subAuthenticators .confirmExecution signatures request
    | .anyOf =>
      AnyOf.callUntilLogged assignment
        (fun auth sub => .adjustLogged settleCache (auth.call .confirmExecution sub)) signatures request
        (fun subAuthErrors => .fail (.allFailedToConfirm subAuthErrors)) 0 [] subAuthenticators

end logged

mutual

/-- The authenticator of a tree at a path, with a log. -/
def AuthTree.logged (json : CompositeJSON) (path : List ℕ) : AuthTree ρ → LoggedAuthenticator ρ
  | .leaf l =>
    { type := l.ath.type
      call := fun method request => do
        log ⟨path, request.authenticatorId, some request.signature⟩
        .unlogged (l.ath.call method request).exec }
  | .node kind assignment subs =>
    { type := compositeType kind assignment
      call := fun method request => .adjustLogged settle
        (compositeLogged json assignment (AuthTree.loggedSubs json path 0 subs) kind request method) }

def AuthTree.loggedSubs (json : CompositeJSON) (path : List ℕ) (i : ℕ) :
    List (AuthTree ρ) → List (LoggedAuthenticator ρ)
  | [] => []
  | t :: ts => t.logged json (path ++ [i]) :: AuthTree.loggedSubs json path (i + 1) ts

end

/-- The error of a hook at a sub-authenticator. -/
def Hook.wrap : Hook → Err → Bytes → Err
  | .added => .subAdded
  | .removed => .subRemoved

mutual

/-- A hook of a tree at a path, with a log. -/
def AuthTree.loggedHook (hook : Hook) (account : Bytes) (path : List ℕ) :
    AuthTree ρ → Bytes → Proc (Context ρ × List Visit) Err Unit
  | .leaf l, id => do
    log ⟨path, id, none⟩
    .unlogged (l.registered.call hook account l.config id).exec
  | .node _ _ subs, id => .adjustLogged settle do
      let _ ← .forEach (fun i (call : Bytes → Proc (Context ρ × List Visit) Err Unit) =>
        .mapError (hook.wrap · (compositeId id i)) (call (compositeId id i))) 0
        (AuthTree.loggedHooks hook account path 0 subs)

def AuthTree.loggedHooks (hook : Hook) (account : Bytes) (path : List ℕ) (i : ℕ) :
    List (AuthTree ρ) → List (Bytes → Proc (Context ρ × List Visit) Err Unit)
  | [] => []
  | t :: ts => t.loggedHook hook account (path ++ [i]) :: AuthTree.loggedHooks hook account path (i + 1) ts

end

/-! ## What belongs to a path -/

def AuthTree.leafAt : List ℕ → AuthTree ρ → Option (LeafInstance ρ)
  | [], .leaf l => some l
  | i :: path, .node _ _ subs => subs[i]?.bind fun t => t.leafAt path
  | _, _ => none

/-- The signature at a path: that of the root, split at each partitioned node on the way. -/
def AuthTree.signatureAt (json : CompositeJSON) : List ℕ → AuthTree ρ → Bytes → Option Bytes
  | [], _, signature => some signature
  | i :: path, .node _ assignment subs, signature =>
    (subSignature json assignment signature subs.length i).bind fun signature =>
      subs[i]?.bind fun t => t.signatureAt json path signature
  | _ :: _, .leaf _, _ => none

/-- There is a partitioned node on the way to the path. -/
def AuthTree.partitionedAbove : List ℕ → AuthTree ρ → Bool
  | i :: path, .node _ assignment subs =>
    assignment == .partitioned || (subs[i]?.any fun t => t.partitionedAbove path)
  | _, _ => false

/-- The signature that a method gives to the leaf at a path: `Track` does not split it. -/
def Method.signatureAt (json : CompositeJSON) (path : List ℕ) (t : AuthTree ρ) (signature : Bytes)
    (method : Method) : Option Bytes :=
  if method = .track then some signature else t.signatureAt json path signature

/-- A call of a leaf below a path, with the id and the signature of its place. -/
def AuthTree.Presented (json : CompositeJSON) (t : AuthTree ρ) (path : List ℕ) (method : Method)
    (request : AuthenticationRequest) (v : Visit) : Prop :=
  ∃ rest, v.path = path ++ rest ∧ (t.leafAt rest).isSome ∧ v.id = idAt request.authenticatorId rest ∧
    ∃ s, v.signature = some s ∧ method.signatureAt json rest t request.signature = some s

section presented

variable {json : CompositeJSON} {kind : CompositeKind} {assignment : SignatureAssignment}
  {subs : List (AuthTree ρ)} {t : AuthTree ρ} {path : List ℕ} {i : ℕ} {method : Method}
  {request sub : AuthenticationRequest} {v : Visit}

/-- What is presented below a child is presented below the node, if the child gets what belongs to it. -/
theorem AuthTree.Presented.up (ht : subs[i]? = some t)
    (hid : sub.authenticatorId = compositeId request.authenticatorId i)
    (hsignature : (if method = .track then some request.signature
      else subSignature json assignment request.signature subs.length i) = some sub.signature)
    (h : t.Presented json (path ++ [i]) method sub v) :
    (AuthTree.node kind assignment subs).Presented json path method request v := by
  obtain ⟨rest, hpath, hleaf, hv, s, hs, hsig⟩ := h
  refine ⟨i :: rest, by rw [hpath, append_assoc, singleton_append], ?_, ?_, s, hs, ?_⟩
  · rw [AuthTree.leafAt, ht]
    exact hleaf
  · rw [hv, hid]
    rfl
  · rw [Method.signatureAt] at hsig ⊢
    by_cases htrack : method = .track
    · rw [if_pos htrack] at hsignature hsig ⊢
      rw [hsignature, hsig]
    · rw [if_neg htrack] at hsignature hsig ⊢
      rw [AuthTree.signatureAt, hsignature, ht]
      exact hsig

theorem AuthTree.loggedSubs_eq (ts : List (AuthTree ρ)) (i : ℕ) :
    AuthTree.loggedSubs json path i ts = ts.mapIdx fun j t => t.logged json (path ++ [i + j]) :=
  eq_mapIdx (fun i t => t.logged json (path ++ [i])) (fun _ => rfl) (fun _ _ _ => rfl) ts i

theorem AuthTree.type_logged (t : AuthTree ρ) : (t.logged json path).type = (t.authenticator json).type := by
  cases t with
  | leaf l => rfl
  | node kind =>
    cases kind with
    | allOf | anyOf => rfl

theorem AuthTree.subs_cases {j : ℕ} {a : Authenticator ρ} {b : LoggedAuthenticator ρ}
    (ha : (AuthTree.authenticators json subs)[j]? = some a) (hb : (AuthTree.loggedSubs json path 0 subs)[j]? = some b) :
    ∃ t, subs[j]? = some t ∧ a = t.authenticator json ∧ b = t.logged json (path ++ [j]) := by
  rw [AuthTree.authenticators_eq, List.getElem?_map] at ha
  rw [AuthTree.loggedSubs_eq, List.getElem?_mapIdx, Nat.zero_add] at hb
  obtain ⟨t, ht, rfl⟩ := Option.map_eq_some_iff.mp ha
  rw [ht] at hb
  exact ⟨t, ht, rfl, (Option.some.inj hb).symm⟩

theorem AnyOf.logs_callUntil {P : Visit → Prop} {sigs : List Bytes}
    {call : Authenticator ρ → AuthenticationRequest → Proc (Context ρ) Err Unit}
    {call' : LoggedAuthenticator ρ → AuthenticationRequest → Proc (Context ρ × List Visit) Err Unit}
    {failed : List (Bytes × Bytes × String) → Proc (Context ρ) Err Unit}
    {failed' : List (Bytes × Bytes × String) → Proc (Context ρ × List Visit) Err Unit}
    (hfailed : ∀ errors, Proc.Logs P (failed errors) (failed' errors)) {auths : List (Authenticator ρ)}
    {loggeds : List (LoggedAuthenticator ρ)} (hlen : auths.length = loggeds.length) :
    ∀ i errors, (∀ j a b, auths[j]? = some a → loggeds[j]? = some b → b.type = a.type ∧
        ∀ sub, subRequest assignment sigs request (i + j) = .ok sub → Proc.Logs P (call a sub) (call' b sub)) →
      Proc.Logs P (AnyOf.callUntil assignment call sigs request failed i errors auths)
        (AnyOf.callUntilLogged assignment call' sigs request failed' i errors loggeds) := by
  induction auths generalizing loggeds with
  | nil =>
    intro i errors _
    obtain rfl : loggeds = [] := eq_nil_of_length_eq_zero hlen.symm
    exact hfailed errors
  | cons a auths ih =>
    intro i errors hcall
    obtain ⟨b, loggeds, rfl⟩ : ∃ b bs, loggeds = b :: bs := exists_cons_of_length_eq_add_one hlen.symm
    obtain ⟨htype, hfirst⟩ := hcall 0 a b rfl rfl
    refine (logs_ofOutcome _).bind fun s sub s' hsub => ?_
    obtain ⟨hsub, -⟩ := ofOutcome_eq_ok.mp hsub
    rw [htype]
    refine (hfirst sub hsub).catchError fun e => ?_
    refine ih (Nat.succ.inj hlen) (i + 1) _ fun j a' b' ha hb => ?_
    have hj := hcall (j + 1) a' b' ha hb
    rwa [show i + (j + 1) = i + 1 + j by omega] at hj

end presented

section node

variable {json : CompositeJSON} {kind : CompositeKind} {assignment : SignatureAssignment}
  {subs : List (AuthTree ρ)} {path : List ℕ} {method : Method} {request sub : AuthenticationRequest}
  {sigs : List Bytes}
  (ih : ∀ t ∈ subs, ∀ path method request, Proc.Logs (t.Presented json path method request)
    ((t.authenticator json).call method request).exec ((t.logged json path).call method request))

theorem AuthTree.length_subs :
    (AuthTree.authenticators json subs).length = (AuthTree.loggedSubs json path 0 subs).length := by
  rw [AuthTree.authenticators_eq, length_map, AuthTree.loggedSubs_eq, length_mapIdx]

theorem AuthTree.isEmpty_subs :
    (AuthTree.authenticators json subs).isEmpty = (AuthTree.loggedSubs json path 0 subs).isEmpty := by
  cases subs with
  | nil | cons => rfl

theorem AuthTree.logs_assigned {P : Visit → Prop} {k : List Bytes → Proc (Context ρ) Err Unit}
    {k' : List Bytes → Proc (Context ρ × List Visit) Err Unit}
    (h : ∀ sigs, assignedSignatures json assignment request.signature subs.length = .ok sigs →
      Proc.Logs P (k sigs) (k' sigs)) :
    Proc.Logs P
      (do k (← .ofOutcome (assignedSignatures json assignment request.signature
        (AuthTree.authenticators json subs).length)))
      (do k' (← .ofOutcome (assignedSignatures json assignment request.signature
        (AuthTree.loggedSubs json path 0 subs).length))) := by
  rw [← AuthTree.length_subs, AuthTree.authenticators_eq, length_map]
  exact (logs_ofOutcome _).bind fun _ sigs _ hsigs => h sigs (ofOutcome_eq_ok.mp hsigs).1

include ih

theorem AuthTree.logs_subTrack :
    Proc.Logs ((AuthTree.node kind assignment subs).Presented json path .track request)
      (subTrack request (AuthTree.authenticators json subs))
      (subTrackLogged (AuthTree.loggedSubs json path 0 subs) request) := by
  refine (logs_forEach AuthTree.length_subs 0 fun j a b ha hb => ?_).bind fun _ _ _ _ => logs_pure ()
  obtain ⟨t, ht, rfl, rfl⟩ := AuthTree.subs_cases ha hb
  rw [Nat.zero_add]
  refine Proc.Logs.mapError ?_ _
  refine (ih t (mem_of_getElem? ht) _ .track _).mono fun v hv => hv.up ht rfl ?_
  exact if_pos rfl

section

variable (hmethod : method ≠ .track)
  (hsigs : assignedSignatures json assignment request.signature subs.length = .ok sigs)

include hmethod hsigs

theorem AuthTree.logs_child {j : ℕ} {t : AuthTree ρ} (ht : subs[j]? = some t)
    (hsub : subRequest assignment sigs request j = .ok sub) :
    Proc.Logs ((AuthTree.node kind assignment subs).Presented json path method request)
      ((t.authenticator json).call method sub).exec ((t.logged json (path ++ [j])).call method sub) := by
  obtain ⟨hj, -⟩ := List.getElem?_eq_some_iff.mp ht
  obtain ⟨s, hs, hrequest⟩ := subRequest_eq hsigs hj
  cases hsub.symm.trans hrequest
  refine (ih t (mem_of_getElem? ht) _ method _).mono fun v hv => hv.up ht rfl ?_
  rw [if_neg hmethod]
  exact hs

theorem AuthTree.logs_callEach : Proc.Logs ((AuthTree.node kind assignment subs).Presented json path method request)
      (AllOf.callEach assignment (AuthTree.authenticators json subs) (fun a sub => a.call method sub) sigs request)
      (AllOf.callEachLogged assignment (AuthTree.loggedSubs json path 0 subs) method sigs request) := by
  refine (logs_forEach AuthTree.length_subs 0 fun j a b ha hb => ?_).bind fun _ _ _ _ => logs_pure ()
  obtain ⟨t, ht, rfl, rfl⟩ := AuthTree.subs_cases ha hb
  rw [Nat.zero_add]
  refine (logs_ofOutcome _).bind fun s sub s' hsub => ?_
  exact AuthTree.logs_child ih hmethod hsigs ht (ofOutcome_eq_ok.mp hsub).1

end

variable (hsigs : assignedSignatures json assignment request.signature subs.length = .ok sigs)

include hsigs

theorem AuthTree.logs_authenticate :
    Proc.Logs ((AuthTree.node kind assignment subs).Presented json path .authenticate request)
      (AnyOf.callUntil assignment (fun auth sub => (auth.authenticate sub).exec) sigs request
        (fun errors => if errors = [] then pure () else .fail (.allFailedToAuthenticate errors)) 0 []
        (AuthTree.authenticators json subs))
      (AnyOf.callUntilLogged assignment (fun auth sub => auth.call .authenticate sub) sigs request
        (fun errors => if errors = [] then pure () else .fail (.allFailedToAuthenticate errors)) 0 []
        (AuthTree.loggedSubs json path 0 subs)) := by
  refine AnyOf.logs_callUntil (fun errors => ?_) AuthTree.length_subs 0 [] fun j a b ha hb => ?_
  · split_ifs
    · exact logs_pure ()
    · exact logs_fail _
  · obtain ⟨t, ht, rfl, rfl⟩ := AuthTree.subs_cases ha hb
    refine ⟨t.type_logged, fun sub hsub => ?_⟩
    rw [Nat.zero_add] at hsub
    exact AuthTree.logs_child ih (by decide) hsigs ht hsub

theorem AuthTree.logs_confirmExecution :
    Proc.Logs ((AuthTree.node kind assignment subs).Presented json path .confirmExecution request)
      (AnyOf.callUntil assignment (fun auth sub => AnyOf.writeOnSuccess (auth.confirmExecution sub).exec) sigs
        request (fun errors => .fail (.allFailedToConfirm errors)) 0 [] (AuthTree.authenticators json subs))
      (AnyOf.callUntilLogged assignment
        (fun auth sub => .adjustLogged settleCache (auth.call .confirmExecution sub)) sigs request
        (fun errors => .fail (.allFailedToConfirm errors)) 0 [] (AuthTree.loggedSubs json path 0 subs)) := by
  refine AnyOf.logs_callUntil (fun _ => logs_fail _) AuthTree.length_subs 0 [] fun j a b ha hb => ?_
  obtain ⟨t, ht, rfl, rfl⟩ := AuthTree.subs_cases ha hb
  refine ⟨t.type_logged, fun sub hsub => ?_⟩
  rw [Nat.zero_add] at hsub
  rw [writeOnSuccess_eq]
  exact (AuthTree.logs_child ih (by decide) hsigs ht hsub).adjust settleCache

end node

/-- A tree with a log does what the tree does, and its leaves are given what belongs to their path. -/
theorem AuthTree.logs (json : CompositeJSON) (t : AuthTree ρ) : ∀ path method request,
    Proc.Logs (t.Presented json path method request) ((t.authenticator json).call method request).exec
      ((t.logged json path).call method request) := by
  induction t using AuthTree.rec_mem with
  | leaf l =>
    intro path method request
    refine (logs_unlogged _).log ⟨[], by rw [append_nil], rfl, rfl, request.signature, rfl, ?_⟩
    rw [Method.signatureAt]
    split_ifs
    · rfl
    · rfl
  | node kind assignment subs ih =>
    intro path method request
    cases method with
    | track =>
      cases kind with
      | allOf | anyOf => exact (AuthTree.logs_subTrack ih).adjust settle
    | authenticate =>
      cases kind with
      | allOf =>
        refine Proc.Logs.adjust ?_ settle
        rw [compositeLogged, ← AuthTree.isEmpty_subs]
        refine (logs_require _ _).bind fun _ _ _ _ => ?_
        exact AuthTree.logs_assigned fun sigs hsigs => AuthTree.logs_callEach ih (by decide) hsigs
      | anyOf =>
        refine Proc.Logs.adjust ?_ settle
        rw [compositeLogged, ← AuthTree.isEmpty_subs]
        refine (logs_require _ _).bind fun _ _ _ _ => ?_
        exact AuthTree.logs_assigned fun sigs hsigs => AuthTree.logs_authenticate ih hsigs
    | confirmExecution =>
      cases kind with
      | allOf =>
        refine Proc.Logs.adjust ?_ settle
        exact AuthTree.logs_assigned fun sigs hsigs => AuthTree.logs_callEach ih (by decide) hsigs
      | anyOf =>
        refine Proc.Logs.adjust ?_ settle
        exact AuthTree.logs_assigned fun sigs hsigs => AuthTree.logs_confirmExecution ih hsigs

/-! ## Hooks -/

/-- A call of a leaf's hook below a path, with the id of its place. -/
def AuthTree.HookPresented (t : AuthTree ρ) (path : List ℕ) (id : Bytes) (v : Visit) : Prop :=
  ∃ rest, v.path = path ++ rest ∧ (t.leafAt rest).isSome ∧ v.id = idAt id rest

variable {assignment : SignatureAssignment} {t : AuthTree ρ} {path : List ℕ} {nested : NestedJSON}

theorem AuthTree.HookPresented.up {kind : CompositeKind} {subs : List (AuthTree ρ)} {i : ℕ} {id : Bytes} {v : Visit}
    (ht : subs[i]? = some t) (h : t.HookPresented (path ++ [i]) (compositeId id i) v) :
    (AuthTree.node kind assignment subs).HookPresented path id v := by
  obtain ⟨rest, hpath, hleaf, hv⟩ := h
  refine ⟨i :: rest, by rw [hpath, append_assoc, singleton_append], ?_, hv⟩
  rw [AuthTree.leafAt, ht]
  exact hleaf

theorem AuthTree.loggedHooks_eq {hook : Hook} {account : Bytes} (ts : List (AuthTree ρ)) (i : ℕ) :
    AuthTree.loggedHooks hook account path i ts = ts.mapIdx fun j t => t.loggedHook hook account (path ++ [i + j]) :=
  eq_mapIdx (fun i t => t.loggedHook hook account (path ++ [i])) (fun _ => rfl) (fun _ _ _ => rfl) ts i

/-- A hook with a log does what the hook does, and the leaves are given the ids of their paths. -/
theorem AuthTree.logs_hook {m : Manager ρ} {hook : Hook} {account : Bytes} (t : AuthTree ρ) :
    ∀ {path : List ℕ} {type config id : Bytes} {registered : RegisteredAuthenticator ρ}, t.Built m type config →
      m.getAuthenticatorByType type = some registered →
      Proc.Logs (t.HookPresented path id) (registered.call hook account config id).exec
        (t.loggedHook hook account path id) := by
  induction t using AuthTree.rec_mem with
  | leaf l =>
    rintro path type config id registered ⟨-, rfl, rfl, hl, -⟩ hregistered
    cases hl.symm.trans hregistered
    exact (logs_unlogged _).log ⟨[], by rw [append_nil], rfl, rfl⟩
  | node kind assignment subs ih =>
    rintro path type config id registered ⟨rfl, initDatas, hdata, htwo, hsubs⟩ hregistered
    cases (m.composite kind assignment).symm.trans hregistered
    -- the loop, for both hooks
    have hloop : ∀ added, Proc.Logs ((AuthTree.node kind assignment subs).HookPresented path id)
        (onEachSub m.getAuthenticatorByType added (fun code config subId => code.call hook account config subId)
          hook.wrap id initDatas)
        (do
          let _ ← .forEach (fun i (call : Bytes → Proc (Context ρ × List Visit) Err Unit) =>
            .mapError (hook.wrap · (compositeId id i)) (call (compositeId id i))) 0
            (AuthTree.loggedHooks hook account path 0 subs)) := by
      intro added
      have hlen : initDatas.length = (AuthTree.loggedHooks hook account path 0 subs).length := by
        rw [AuthTree.loggedHooks_eq, length_mapIdx, hsubs.length_eq]
      refine (logs_forEach hlen 0 fun j d call hd hcall => ?_).bind fun _ _ _ _ => logs_pure ()
      rw [AuthTree.loggedHooks_eq, List.getElem?_mapIdx] at hcall
      obtain ⟨t, ht, rfl⟩ := Option.map_eq_some_iff.mp hcall
      have hbuilt := hsubs.built ht hd
      obtain ⟨code, hcode⟩ := hbuilt.exists_registered
      rw [hcode, Nat.zero_add]
      exact ((ih t (mem_of_getElem? ht) hbuilt hcode).mono fun v hv => hv.up ht).mapError _
    cases hook with
    | added =>
      refine Proc.Logs.adjust ?_ settle
      rw [onSubAuthenticatorsAdded, hdata]
      dsimp only
      rw [if_neg (by omega)]
      exact hloop true
    | removed =>
      refine Proc.Logs.adjust ?_ settle
      rw [onSubAuthenticatorsRemoved, hdata]
      exact hloop false

/-! ## The leaves of a tree -/

/-- The five ways through a tree. -/
inductive Traversal where
  | method (method : Method)
  | hook (hook : Hook)

/-- The code of a tree of a type and a config. -/
def AuthTree.run (m : Manager ρ) (t : AuthTree ρ) (registered : RegisteredAuthenticator ρ) (config : Bytes)
    (request : AuthenticationRequest) : Traversal → Proc (Context ρ) Err Unit
  | .method method => ((t.authenticator m.json.toCompositeJSON).call method request).exec
  | .hook hook => (registered.call hook request.account config request.authenticatorId).exec

def AuthTree.runLogged (m : Manager ρ) (t : AuthTree ρ) (request : AuthenticationRequest) :
    Traversal → Proc (Context ρ × List Visit) Err Unit
  | .method method => (t.logged m.json.toCompositeJSON []).call method request
  | .hook hook => t.loggedHook hook request.account [] request.authenticatorId

/-- The calls of leaves on a way through the tree. -/
def AuthTree.visits (m : Manager ρ) (t : AuthTree ρ) (request : AuthenticationRequest) (way : Traversal)
    (ctx : Context ρ) : List Visit := (t.runLogged m request way (ctx, [])).2.2

theorem subSignature_eq {signature s : Bytes} {total i : ℕ}
    (h : subSignature nested.toCompositeJSON assignment signature total i = some s) :
    (assignment = .single ∧ s = signature) ∨ (assignment = .partitioned ∧ s.length < signature.length) := by
  cases assignment with
  | single => exact .inl ⟨rfl, (Option.some.inj h).symm⟩
  | partitioned =>
    obtain ⟨parts, hparts, hs⟩ := Option.bind_eq_some_iff.mp h
    obtain ⟨hparts, -⟩ := Option.filter_eq_some_iff.mp hparts
    exact Or.inr ⟨rfl, nested.part_shorter hparts s (mem_of_getElem? hs)⟩

/-- The signature of a path is shorter than that of the root below a partitioned node, and the same elsewhere. -/
theorem AuthTree.signatureAt_eq (path : List ℕ) : ∀ {t : AuthTree ρ} {signature s : Bytes},
    t.signatureAt nested.toCompositeJSON path signature = some s →
      (t.partitionedAbove path = true ∧ s.length < signature.length) ∨
      (t.partitionedAbove path = false ∧ s = signature) := by
  induction path with
  | nil =>
    intro t signature s h
    exact .inr ⟨by cases t <;> rfl, (Option.some.inj h).symm⟩
  | cons i path ih =>
    intro t signature s h
    cases t with
    | leaf l => cases h
    | node =>
      obtain ⟨part, hpart, hrest⟩ := Option.bind_eq_some_iff.mp h
      obtain ⟨t, ht, hs⟩ := Option.bind_eq_some_iff.mp hrest
      rw [AuthTree.partitionedAbove, ht]
      rcases subSignature_eq hpart with ⟨rfl, rfl⟩ | ⟨rfl, hshorter⟩
      · exact ih hs
      · refine .inl ⟨rfl, ?_⟩
        rcases ih hs with ⟨-, hs⟩ | ⟨-, rfl⟩
        · exact hs.trans hshorter
        · exact hshorter

/-- A call on a way through the tree has the id of its leaf, and the signature that the method gives to it. -/
def AuthTree.Placed (m : Manager ρ) (t : AuthTree ρ) (request : AuthenticationRequest) (way : Traversal)
    (v : Visit) : Prop :=
  (t.leafAt v.path).isSome ∧ v.id = idAt request.authenticatorId v.path ∧
    ∀ method, way = .method method → ∃ s, v.signature = some s ∧
      method.signatureAt m.json.toCompositeJSON v.path t request.signature = some s

theorem AuthTree.eq_signatureAt_iff {signature s : Bytes}
    (h : t.signatureAt nested.toCompositeJSON path signature = some s) :
    s = signature ↔ t.partitionedAbove path = false := by
  rcases AuthTree.signatureAt_eq path h with ⟨habove, hshorter⟩ | ⟨habove, rfl⟩
  · rw [habove]
    refine ⟨?_, fun hfalse => by cases hfalse⟩
    rintro rfl
    exact absurd hshorter (lt_irrefl _)
  · exact ⟨fun _ => habove, fun _ => rfl⟩

theorem AuthTree.logs_run {m : Manager ρ} {type config : Bytes} {registered : RegisteredAuthenticator ρ}
    (ht : t.Built m type config) (hregistered : m.getAuthenticatorByType type = some registered)
    (request : AuthenticationRequest) (way : Traversal) :
    Proc.Logs (t.Placed m request way) (t.run m registered config request way) (t.runLogged m request way) := by
  cases way with
  | method method =>
    refine (t.logs m.json.toCompositeJSON [] method request).mono ?_
    rintro ⟨path, id, signature⟩ ⟨rest, rfl, hleaf, hid, hsignature⟩
    refine ⟨hleaf, hid, ?_⟩
    rintro _ ⟨⟩
    exact hsignature
  | hook hook =>
    refine (t.logs_hook ht hregistered).mono ?_
    rintro ⟨path, id, signature⟩ ⟨rest, rfl, hleaf, hid⟩
    exact ⟨hleaf, hid, by rintro _ ⟨⟩⟩

/-- `Track` and the other methods give a leaf the same signature exactly if no node above it is partitioned; all
else is given alike.  The log of a way through the tree is that of its code. -/
theorem leaves_presented_alike_iff (m : Manager ρ) (t : AuthTree ρ) (type config : Bytes)
    (ht : t.Built m type config) (request : AuthenticationRequest) :
    ∃ registered, m.getAuthenticatorByType type = some registered ∧
      (∀ way ctx, t.runLogged m request way (ctx, []) =
        ((t.run m registered config request way ctx).1, (t.run m registered config request way ctx).2,
          t.visits m request way ctx)) ∧
      (∀ way ctx, ∀ v ∈ t.visits m request way ctx,
        (t.leafAt v.path).isSome ∧ v.id = idAt request.authenticatorId v.path) ∧
      ∀ method method' ctx ctx', ∀ v ∈ t.visits m request (.method method) ctx,
        ∀ w ∈ t.visits m request (.method method') ctx', v.path = w.path →
          (v.signature = w.signature ↔
            (method = .track ↔ method' = .track) ∨ t.partitionedAbove v.path = false) := by
  obtain ⟨registered, hregistered⟩ := ht.exists_registered
  have hrun : ∀ way ctx, t.runLogged m request way (ctx, []) =
      ((t.run m registered config request way ctx).1, (t.run m registered config request way ctx).2,
        t.visits m request way ctx) ∧ ∀ v ∈ t.visits m request way ctx, t.Placed m request way v := by
    intro way ctx
    obtain ⟨added, hrun, hadded⟩ := t.logs_run ht hregistered request way ctx []
    have hvisits : t.visits m request way ctx = added := by
      rw [AuthTree.visits, hrun]
      rfl
    rw [hvisits]
    exact ⟨hrun, hadded⟩
  refine ⟨registered, hregistered, fun way ctx => (hrun way ctx).1, fun way ctx v hv => ?_, ?_⟩
  · obtain ⟨hleaf, hid, -⟩ := (hrun way ctx).2 v hv
    exact ⟨hleaf, hid⟩
  · intro method method' ctx ctx' v hv w hw hpath
    obtain ⟨s, hv, hs⟩ := ((hrun _ ctx).2 v hv).2.2 method rfl
    obtain ⟨s', hw, hs'⟩ := ((hrun _ ctx').2 w hw).2.2 method' rfl
    rw [hv, hw, Option.some.injEq, hpath]
    rw [hpath] at hs
    rw [Method.signatureAt] at hs hs'
    by_cases htrack : method = .track
    · rw [if_pos htrack] at hs
      cases hs
      by_cases htrack' : method' = .track
      · rw [if_pos htrack'] at hs'
        exact ⟨fun _ => .inl (iff_of_true htrack htrack'), fun _ => Option.some.inj hs'⟩
      · rw [if_neg htrack'] at hs'
        rw [eq_comm, AuthTree.eq_signatureAt_iff hs']
        exact ⟨.inr, fun h => h.resolve_left fun hiff => htrack' (hiff.mp htrack)⟩
    · rw [if_neg htrack] at hs
      by_cases htrack' : method' = .track
      · rw [if_pos htrack'] at hs'
        cases hs'
        rw [AuthTree.eq_signatureAt_iff hs]
        exact ⟨.inr, fun h => h.resolve_left fun hiff => htrack (hiff.mpr htrack')⟩
      · rw [if_neg htrack'] at hs'
        exact ⟨fun _ => .inl (iff_of_false htrack htrack'), fun _ => Option.some.inj (hs.symm.trans hs')⟩

/-! ### A sample -/

namespace SampleTree

def accepting : Authenticator Unit :=
  { type := ascii "Leaf"
    staticGas := 0
    authenticate := fun _ => .ofProc (pure ())
    track := fun _ => .ofProc (pure ())
    confirmExecution := fun _ => .ofProc (pure ()) }

def registered : RegisteredAuthenticator Unit :=
  { initializeConfig := fun _ => .ok (some accepting)
    onAuthenticatorAdded := fun _ _ _ => .ofProc (pure ())
    onAuthenticatorRemoved := fun _ _ _ => .ofProc (pure ()) }

/-- The config of one byte is that of two leaves, and a signature of two bytes has two parts. -/
def json : NestedJSON where
  signatures := fun signature => if signature.length = 2 then some (signature.map fun b => [b]) else none
  initDatas := fun data => if data.length = 1 then some [(ascii "Leaf", []), (ascii "Leaf", [])] else none
  config_shorter := by
    intro data subs h sub hsub
    split_ifs at h with hlen
    cases h
    rw [hlen]
    simp only [mem_cons, not_mem_nil, or_false, or_self] at hsub
    rw [hsub]
    exact Nat.zero_lt_one
  part_shorter := by
    intro signature parts h part hpart
    split_ifs at h with hlen
    cases h
    obtain ⟨b, -, rfl⟩ := mem_map.mp hpart
    rw [hlen]
    exact Nat.one_lt_two

def manager : Manager Unit :=
  .ofLeaves json fun type => if type = ascii "Leaf" then some registered else none

def leaf : AuthTree Unit := .leaf ⟨ascii "Leaf", [], registered, accepting⟩

def tree (assignment : SignatureAssignment) : AuthTree Unit := .node .allOf assignment [leaf, leaf]

theorem leaf_built : leaf.Built manager (ascii "Leaf") [] := by
  have htype : compositeOf (ascii "Leaf") = none := by decide +kernel
  exact ⟨htype, rfl, rfl, Manager.ofLeaves_of_none htype, rfl⟩

theorem tree_built (assignment : SignatureAssignment) :
    (tree assignment).Built manager (compositeType .allOf assignment) [0] :=
  ⟨rfl, [(ascii "Leaf", []), (ascii "Leaf", [])], rfl, le_rfl, leaf_built, leaf_built, trivial⟩

/-- The calls of the two leaves, with the signatures that they are given. -/
def calls (first second : Bytes) : List Visit :=
  [⟨[0], ascii "7.0", some first⟩, ⟨[1], ascii "7.1", some second⟩]

end SampleTree

/-- Two leaves below a node with one signature. -/
theorem single_signature_presented_alike :
    ∃ v w : Visit, (v.path = [1] ∧ w.path = [1]) ∧
      v ∈ (SampleTree.tree .single).visits SampleTree.manager (sampleRequest [1, 2]) (.method .track) emptyContext ∧
      w ∈ (SampleTree.tree .single).visits SampleTree.manager (sampleRequest [1, 2]) (.method .authenticate)
        emptyContext ∧
      v.signature = w.signature := by
  obtain ⟨-, -, -, -, halike⟩ := leaves_presented_alike_iff SampleTree.manager (SampleTree.tree .single) _ _
    (SampleTree.tree_built .single) (sampleRequest [1, 2])
  have hmem : ∀ method, (⟨[1], ascii "7.1", some [1, 2]⟩ : Visit) ∈ (SampleTree.tree .single).visits
      SampleTree.manager (sampleRequest [1, 2]) (.method method) emptyContext := by
    intro method
    cases method <;> decide +kernel
  exact ⟨_, _, ⟨rfl, rfl⟩, hmem .track, hmem .authenticate,
    (halike .track .authenticate emptyContext emptyContext _ (hmem .track) _ (hmem .authenticate) rfl).mpr (.inr rfl)⟩

/-- Two leaves below a partitioned node: `Track` gives both of them the whole signature. -/
theorem unsplit_signature_tracked :
    (SampleTree.tree .partitioned).Built SampleTree.manager (ascii "PartitionedAllOf") [0] ∧
      (SampleTree.tree .partitioned).visits SampleTree.manager (sampleRequest [1, 2]) (.method .authenticate)
        emptyContext = SampleTree.calls [1] [2] ∧
      (SampleTree.tree .partitioned).visits SampleTree.manager (sampleRequest [1, 2]) (.method .confirmExecution)
        emptyContext = SampleTree.calls [1] [2] ∧
      (SampleTree.tree .partitioned).visits SampleTree.manager (sampleRequest [1, 2]) (.method .track)
        emptyContext = SampleTree.calls [1, 2] [1, 2] :=
  ⟨SampleTree.tree_built .partitioned, by decide +kernel, by decide +kernel, by decide +kernel⟩

end SmartAccount
