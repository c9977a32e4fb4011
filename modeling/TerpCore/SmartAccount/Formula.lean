/-
  Composite authentication is a formula: a tree of composite authenticators accepts a request exactly if the
  tree of conjunctions and disjunctions holds, with each leaf evaluated at the id and at the signature that
  belong to its path.
-/
import TerpCore.SmartAccount.Composite

namespace SmartAccount

open Lib Proc

variable {ρ : Type}

/-- An authenticator that is no composite, and the predicate of id and signature that it decides. -/
structure Leaf (ρ : Type) where
  ath : Authenticator ρ
  accepts : (id signature : Bytes) → Bool
  ok : ∀ request ctx, accepts request.authenticatorId request.signature = true →
    (ath.authenticate request ctx).exit = .ok ()
  error : ∀ request ctx, accepts request.authenticatorId request.signature = false →
    ∃ e, (ath.authenticate request ctx).exit = .error e

inductive Tree (ρ : Type) where
  | leaf (l : Leaf ρ)
  | node (kind : CompositeKind) (assignment : SignatureAssignment) (subs : List (Tree ρ))

/-! ## The authenticator of a tree -/

mutual

def Tree.authenticator (json : CompositeJSON) : Tree ρ → Authenticator ρ
  | .leaf l => l.ath
  | .node .allOf assignment subs => AllOf.toAuthenticator json assignment (Tree.authenticators json subs)
  | .node .anyOf assignment subs => AnyOf.toAuthenticator json assignment (Tree.authenticators json subs)

def Tree.authenticators (json : CompositeJSON) : List (Tree ρ) → List (Authenticator ρ)
  | [] => []
  | t :: ts => t.authenticator json :: Tree.authenticators json ts

end

mutual

/-- Each composite has at least two sub-authenticators, as `Initialize` requires. -/
def Tree.WellFormed : Tree ρ → Prop
  | .leaf _ => True
  | .node _ _ subs => 2 ≤ subs.length ∧ Tree.AllWellFormed subs

def Tree.AllWellFormed : List (Tree ρ) → Prop
  | [] => True
  | t :: ts => t.WellFormed ∧ Tree.AllWellFormed ts

end

/-! ## The formula of a tree -/

/-- The id at a path: `root.i1.i2…`. -/
def idAt (root : Bytes) (path : List ℕ) : Bytes := path.foldl compositeId root

/-- The parts of a signature, if there are as many as asked for. -/
def partsOf (json : CompositeJSON) (signature : Bytes) (total : ℕ) : Option (List Bytes) :=
  (json.signatures signature).filter fun parts => parts.length == total

def subSignature (json : CompositeJSON) (assignment : SignatureAssignment) (signature : Bytes) (total i : ℕ) :
    Option Bytes :=
  match assignment with
  | .single => some signature
  | .partitioned => (partsOf json signature total).bind fun parts => parts[i]?

/-- The signature at a path: that of the root, split at each partitioned node on the way. -/
def Tree.signatureAt (json : CompositeJSON) : List ℕ → Tree ρ → Bytes → Option Bytes
  | [], _, signature => some signature
  | _ :: _, .leaf _, _ => none
  | i :: path, .node _ assignment subs, signature =>
    match subs[i]?, subSignature json assignment signature subs.length i with
    | some sub, some signature => sub.signatureAt json path signature
    | _, _ => none

/-- A partitioned node counts only if its signature splits. -/
def splits (json : CompositeJSON) (assignment : SignatureAssignment) (signature : Option Bytes) (total : ℕ) : Bool :=
  match assignment with
  | .single => true
  | .partitioned => (signature.bind fun signature => partsOf json signature total).isSome

section holds

variable (json : CompositeJSON) (root : Bytes) (signatures : List ℕ → Option Bytes)

mutual

/-- The formula of the subtree at a path, given the id of the root and the signatures at all paths. -/
def Tree.holds (path : List ℕ) : Tree ρ → Bool
  | .leaf l =>
    match signatures path with
    | none => false
    | some signature => l.accepts (idAt root path) signature
  | .node .allOf assignment subs =>
    splits json assignment (signatures path) subs.length && Tree.allHold path 0 subs
  | .node .anyOf assignment subs =>
    splits json assignment (signatures path) subs.length && Tree.anyHold path 0 subs

def Tree.allHold (path : List ℕ) (i : ℕ) : List (Tree ρ) → Bool
  | [] => true
  | t :: ts => t.holds (path ++ [i]) && Tree.allHold path (i + 1) ts

def Tree.anyHold (path : List ℕ) (i : ℕ) : List (Tree ρ) → Bool
  | [] => false
  | t :: ts => t.holds (path ++ [i]) || Tree.anyHold path (i + 1) ts

end

end holds

def Tree.formula (json : CompositeJSON) (t : Tree ρ) (root signature : Bytes) : Bool :=
  t.holds json root (fun path => t.signatureAt json path signature) []

/-! ## Decisions -/

/-- The code returns exactly if `b`, and otherwise it returns an error. -/
def Decides {α : Type} (x : Exit Err α) (b : Bool) : Prop :=
  match b with
  | true => ∃ a, x = .ok a
  | false => ∃ e, x = .error e

theorem Decides.eq_ok_iff {x : Exit Err Unit} {b : Bool} (h : Decides x b) : x = .ok () ↔ b = true := by
  cases b with
  | true =>
    obtain ⟨a, rfl⟩ := h
    simp
  | false =>
    obtain ⟨e, rfl⟩ := h
    simp

section decides

variable {α β : Type} {ctx : Context ρ} {b c : Bool}

theorem decides_bind {p : Proc (Context ρ) Err α} {f : α → Proc (Context ρ) Err β} (hp : Decides (p ctx).1 b)
    (hf : ∀ a ctx', p ctx = (.ok a, ctx') → Decides (f a ctx').1 c) : Decides ((p >>= f) ctx).1 (b && c) := by
  rcases hx : p ctx with ⟨x, ctx'⟩
  rw [hx] at hp
  cases b with
  | true =>
    obtain ⟨a, rfl⟩ := hp
    rw [bind_of_ok hx]
    exact hf a ctx' hx
  | false =>
    obtain ⟨e, rfl⟩ := hp
    rw [bind_apply, hx]
    exact ⟨e, rfl⟩

theorem decides_pure (a : α) : Decides ((pure a : Proc (Context ρ) Err α) ctx).1 true := ⟨a, rfl⟩

theorem decides_ofProc {p : Proc (Context ρ) Err Unit} (h : Decides (p ctx).1 b) :
    Decides (Code.ofProc p ctx).exit b := h

end decides

/-! ## Signatures -/

section signatures

variable {json : CompositeJSON} {assignment : SignatureAssignment} {signature : Bytes} {total : ℕ}

theorem splitSignatures_eq_ok {parts : List Bytes} :
    splitSignatures json signature total = .ok parts ↔ partsOf json signature total = some parts := by
  unfold splitSignatures partsOf
  cases json.signatures signature with
  | none => simp
  | some ps =>
    by_cases hlen : ps.length = total
    · simp [Option.filter, hlen]
    · simp [Option.filter, hlen]

theorem decides_assignedSignatures (json : CompositeJSON) (assignment : SignatureAssignment)
    (signature : Bytes) (total : ℕ) (ctx : Context ρ) :
    Decides ((ofOutcome (assignedSignatures json assignment signature total) :
      Proc (Context ρ) Err (List Bytes)) ctx).1 (splits json assignment (some signature) total) := by
  cases assignment with
  | single => exact ⟨[], rfl⟩
  | partitioned =>
    rcases hparts : partsOf json signature total with _ | parts
    · have herror : ∃ e, splitSignatures json signature total = .error e := by
        unfold splitSignatures
        unfold partsOf at hparts
        rcases hjson : json.signatures signature with _ | ps
        · exact ⟨_, rfl⟩
        · simp only [hjson, Option.filter_eq_none_iff, Option.some.injEq, forall_eq', beq_iff_eq] at hparts
          exact ⟨_, if_pos hparts⟩
      obtain ⟨e, he⟩ := herror
      simp only [splits, Option.bind_some, hparts, assignedSignatures, he]
      exact ⟨e, rfl⟩
    · have hok := splitSignatures_eq_ok.mpr hparts
      simp only [splits, Option.bind_some, hparts, assignedSignatures, hok]
      exact ⟨parts, rfl⟩

theorem subRequest_eq {request : AuthenticationRequest} {sigs : List Bytes} {i : ℕ}
    (hsigs : assignedSignatures json assignment request.signature total = .ok sigs) (hi : i < total) :
    ∃ s, subSignature json assignment request.signature total i = some s ∧ subRequest assignment sigs request i =
        .ok { request with authenticatorId := compositeId request.authenticatorId i, signature := s } := by
  cases assignment with
  | single => exact ⟨request.signature, rfl, rfl⟩
  | partitioned =>
    have hparts : partsOf json request.signature total = some sigs := splitSignatures_eq_ok.mp hsigs
    have hlen : sigs.length = total := by
      unfold partsOf at hparts
      obtain ⟨-, hlen⟩ := Option.filter_eq_some_iff.mp hparts
      simpa using hlen
    obtain ⟨s, hget⟩ : ∃ s, sigs[i]? = some s := ⟨_, List.getElem?_eq_getElem (by omega)⟩
    exact ⟨s, by simp only [subSignature, hparts, Option.bind_some, hget], by simp only [subRequest, hget]⟩

end signatures

/-! ## Trees -/

section loops

variable {json : CompositeJSON} {assignment : SignatureAssignment} {auth : Authenticator ρ}
  {rest : List (Authenticator ρ)} {request sub : AuthenticationRequest} {ctx ctx' : Context ρ}
  {call : Authenticator ρ → AuthenticationRequest → Proc (Context ρ) Err Unit} {sigs : List Bytes}
  {failed : List (Bytes × Bytes × String) → Proc (Context ρ) Err Unit} {i : ℕ}
  {errors : List (Bytes × Bytes × String)}

theorem AllOf.authenticate_cons : AllOf.authenticate json assignment (auth :: rest) request = (do
    let signatures ← .ofOutcome (assignedSignatures json assignment request.signature (auth :: rest).length)
    AllOf.callEach assignment (auth :: rest) Authenticator.authenticate signatures request) := rfl

theorem AnyOf.authenticate_cons : AnyOf.authenticate json assignment (auth :: rest) request = (do
    let signatures ← .ofOutcome (assignedSignatures json assignment request.signature (auth :: rest).length)
    AnyOf.callUntil assignment (fun auth sub => (auth.authenticate sub).exec) signatures request
      (fun errors => if errors = [] then pure () else .fail (.allFailedToAuthenticate errors)) 0 []
      (auth :: rest)) := rfl

theorem AnyOf.callUntil_of_ok {u : Unit} (hsub : subRequest assignment sigs request i = .ok sub)
    (hcall : call auth sub ctx = (.ok u, ctx')) :
    AnyOf.callUntil assignment call sigs request failed i errors (auth :: rest) ctx = (.ok u, ctx') := by
  rw [AnyOf.callUntil, hsub, ofOutcome_ok, pure_bind, catchError_of_ok hcall]

theorem AnyOf.callUntil_of_error {e : Err} (hsub : subRequest assignment sigs request i = .ok sub)
    (hcall : call auth sub ctx = (.error e, ctx')) :
    AnyOf.callUntil assignment call sigs request failed i errors (auth :: rest) ctx =
      AnyOf.callUntil assignment call sigs request failed (i + 1)
        (errors ++ [(auth.type, sub.authenticatorId, e.message)]) rest ctx' := by
  rw [AnyOf.callUntil, hsub, ofOutcome_ok, pure_bind, catchError_of_error hcall]

end loops

section subs

variable (json : CompositeJSON) (root : Bytes) (signatures : List ℕ → Option Bytes)

/-- The loop of a composite from its `i`-th child on: each gets the signature that its subtree has at its path. -/
def SubsAt (assignment : SignatureAssignment) (sigs : List Bytes) (path : List ℕ)
    (request : AuthenticationRequest) (i : ℕ) (ts : List (Tree ρ)) : Prop :=
  ∀ j t, ts[j]? = some t → ∃ s, subRequest assignment sigs request (i + j) =
      .ok { request with authenticatorId := compositeId request.authenticatorId (i + j), signature := s } ∧
    ∀ q, signatures (path ++ (i + j) :: q) = t.signatureAt json q s

variable {json root signatures} {assignment : SignatureAssignment} {sigs : List Bytes} {path : List ℕ}
  {request : AuthenticationRequest} {i : ℕ}

theorem SubsAt.tail {t : Tree ρ} {ts : List (Tree ρ)}
    (h : SubsAt json signatures assignment sigs path request i (t :: ts)) :
    SubsAt json signatures assignment sigs path request (i + 1) ts := by
  intro j t' ht'
  have hj := h (j + 1) t' ht'
  rwa [show i + (j + 1) = i + 1 + j by omega] at hj

theorem subsAt_node {kind : CompositeKind} {subs : List (Tree ρ)} (hsignatures : ∀ q, signatures (path ++ q) =
      (Tree.node kind assignment subs).signatureAt json q request.signature)
    (hsigs : assignedSignatures json assignment request.signature subs.length = .ok sigs) :
    SubsAt json signatures assignment sigs path request 0 subs := by
  intro j t ht
  obtain ⟨hj, -⟩ := List.getElem?_eq_some_iff.mp ht
  obtain ⟨s, hs, hrequest⟩ := subRequest_eq hsigs hj
  rw [Nat.zero_add]
  refine ⟨s, hrequest, fun q => ?_⟩
  rw [hsignatures]
  simp only [Tree.signatureAt, ht, hs]

theorem idAt_append (path : List ℕ) (i : ℕ) : idAt root (path ++ [i]) = compositeId (idAt root path) i := by
  simp [idAt]

theorem length_authenticators (json : CompositeJSON) :
    ∀ ts : List (Tree ρ), (Tree.authenticators json ts).length = ts.length
  | [] => rfl
  | _ :: ts => congrArg (· + 1) (length_authenticators json ts)

end subs

section trees

variable (json : CompositeJSON) (root : Bytes) (signatures : List ℕ → Option Bytes)

mutual

theorem Tree.decides : ∀ (t : Tree ρ), t.WellFormed → ∀ (path : List ℕ) (request : AuthenticationRequest)
    (ctx : Context ρ), request.authenticatorId = idAt root path →
    (∀ q, signatures (path ++ q) = t.signatureAt json q request.signature) →
    Decides ((t.authenticator json).authenticate request ctx).exit (t.holds json root signatures path)
  | .leaf l, _, path, request, ctx, hid, hsignatures => by
    have hpath : signatures path = some request.signature := by simpa [Tree.signatureAt] using hsignatures []
    rw [Tree.holds, hpath, Tree.authenticator]
    dsimp only
    rw [← hid]
    cases haccepts : l.accepts request.authenticatorId request.signature with
    | true => exact ⟨(), l.ok request ctx haccepts⟩
    | false => exact l.error request ctx haccepts
  | .node kind assignment subs, hwf, path, request, ctx, hid, hsignatures => by
    obtain ⟨hlen, hsubs⟩ : 2 ≤ subs.length ∧ Tree.AllWellFormed subs := by simpa [Tree.WellFormed] using hwf
    have hpath : signatures path = some request.signature := by simpa [Tree.signatureAt] using hsignatures []
    obtain ⟨t, ts, rfl⟩ : ∃ t ts, subs = t :: ts := List.exists_cons_of_length_pos (by omega)
    have hsplit := decides_assignedSignatures json assignment request.signature
      (Tree.authenticators json (t :: ts)).length ctx
    cases kind with
    | allOf =>
      rw [Tree.holds, Tree.authenticator, hpath, ← length_authenticators json]
      refine decides_ofProc ?_
      rw [Tree.authenticators, AllOf.authenticate_cons]
      refine decides_bind hsplit fun sigs ctx' hsigs => ?_
      obtain ⟨hassigned, rfl⟩ := ofOutcome_eq_ok.mp hsigs
      rw [← Tree.authenticators, length_authenticators] at hassigned
      have hloop := Tree.allHold_decides (t :: ts) hsubs assignment sigs path request ctx 0 hid
        (subsAt_node hsignatures hassigned)
      rw [← Bool.and_true (Tree.allHold json root signatures path 0 (t :: ts))]
      exact decides_bind hloop fun _ _ _ => decides_pure ()
    | anyOf =>
      rw [Tree.holds, Tree.authenticator, hpath, ← length_authenticators json]
      refine decides_ofProc ?_
      rw [Tree.authenticators, AnyOf.authenticate_cons]
      refine decides_bind hsplit fun sigs ctx' hsigs => ?_
      obtain ⟨hassigned, rfl⟩ := ofOutcome_eq_ok.mp hsigs
      rw [← Tree.authenticators, length_authenticators] at hassigned
      exact Tree.anyHold_decides (t :: ts) hsubs assignment sigs path request ctx 0 [] (.inr (by simp)) hid
        (subsAt_node hsignatures hassigned)

theorem Tree.allHold_decides : ∀ (ts : List (Tree ρ)), Tree.AllWellFormed ts →
    ∀ (assignment : SignatureAssignment) (sigs : List Bytes) (path : List ℕ) (request : AuthenticationRequest)
      (ctx : Context ρ) (i : ℕ), request.authenticatorId = idAt root path →
    SubsAt json signatures assignment sigs path request i ts →
    Decides (forEach (fun i (auth : Authenticator ρ) => do
      let sub ← ofOutcome (subRequest assignment sigs request i)
      (auth.authenticate sub).exec) i (Tree.authenticators json ts) ctx).1
      (Tree.allHold json root signatures path i ts)
  | [], _, _, _, _, _, _, _, _, _ => by
    rw [Tree.allHold]
    exact decides_pure []
  | t :: ts, hwf, assignment, sigs, path, request, ctx, i, hid, hsubs => by
    obtain ⟨ht, hts⟩ : t.WellFormed ∧ Tree.AllWellFormed ts := by simpa [Tree.AllWellFormed] using hwf
    obtain ⟨s, hrequest, hs⟩ := hsubs 0 t rfl
    rw [Nat.add_zero] at hrequest
    rw [Tree.allHold, Tree.authenticators, forEach]
    refine decides_bind ?_ fun _ ctx' _ => ?_
    · rw [hrequest, ofOutcome_ok, pure_bind]
      refine Tree.decides t ht (path ++ [i]) _ ctx ?_ fun q => ?_
      · rw [idAt_append, hid]
      · simpa using hs q
    · rw [← Bool.and_true (Tree.allHold json root signatures path (i + 1) ts)]
      exact decides_bind (Tree.allHold_decides ts hts assignment sigs path request ctx' (i + 1) hid hsubs.tail)
        fun _ _ _ => decides_pure _

theorem Tree.anyHold_decides : ∀ (ts : List (Tree ρ)), Tree.AllWellFormed ts →
    ∀ (assignment : SignatureAssignment) (sigs : List Bytes) (path : List ℕ) (request : AuthenticationRequest)
      (ctx : Context ρ) (i : ℕ) (errors : List (Bytes × Bytes × String)),
    (errors ≠ [] ∨ ts ≠ []) → request.authenticatorId = idAt root path →
    SubsAt json signatures assignment sigs path request i ts →
    Decides (AnyOf.callUntil assignment (fun (auth : Authenticator ρ) sub => (auth.authenticate sub).exec) sigs
      request (fun errors => if errors = [] then pure () else .fail (.allFailedToAuthenticate errors)) i errors
      (Tree.authenticators json ts) ctx).1 (Tree.anyHold json root signatures path i ts)
  | [], _, _, _, _, _, _, _, errors, hne, _, _ => by
    rw [Tree.anyHold, Tree.authenticators, AnyOf.callUntil, if_neg (by simpa using hne)]
    exact ⟨_, rfl⟩
  | t :: ts, hwf, assignment, sigs, path, request, ctx, i, errors, _, hid, hsubs => by
    obtain ⟨ht, hts⟩ : t.WellFormed ∧ Tree.AllWellFormed ts := by simpa [Tree.AllWellFormed] using hwf
    obtain ⟨s, hrequest, hs⟩ := hsubs 0 t rfl
    rw [Nat.add_zero] at hrequest
    rw [Tree.anyHold, Tree.authenticators]
    have hfirst := Tree.decides t ht (path ++ [i])
      { request with authenticatorId := compositeId request.authenticatorId i, signature := s } ctx
      (by rw [idAt_append, hid]) (fun q => by simpa using hs q)
    rcases hx : ((t.authenticator json).authenticate
      { request with authenticatorId := compositeId request.authenticatorId i, signature := s }).exec ctx with
      ⟨x, ctx'⟩
    have hexit := congrArg Prod.fst hx
    simp only [Code.exec] at hexit
    rw [hexit] at hfirst
    cases hholds : t.holds json root signatures (path ++ [i]) with
    | true =>
      rw [hholds] at hfirst
      obtain ⟨a, rfl⟩ := hfirst
      rw [AnyOf.callUntil_of_ok hrequest hx, Bool.true_or]
      exact ⟨a, rfl⟩
    | false =>
      rw [hholds] at hfirst
      obtain ⟨e, rfl⟩ := hfirst
      rw [AnyOf.callUntil_of_error hrequest hx, Bool.false_or]
      exact Tree.anyHold_decides ts hts assignment sigs path request ctx' (i + 1) _ (.inl (by simp)) hid hsubs.tail

end

end trees

/-- Authentication by a tree of composite authenticators is the formula of the tree. -/
theorem authenticate_iff_formula (json : CompositeJSON) (t : Tree ρ) (ht : t.WellFormed)
    (request : AuthenticationRequest) (ctx : Context ρ) :
    ((t.authenticator json).authenticate request ctx).exit = .ok () ↔
      t.formula json request.authenticatorId request.signature = true :=
  (Tree.decides json request.authenticatorId (fun path => t.signatureAt json path request.signature) t ht []
    request ctx rfl fun _ => rfl).eq_ok_iff

/-- The leaf that decides a predicate of the id and the signature. -/
def Leaf.ofPredicate (accepts : Bytes → Bytes → Bool) : Leaf ρ where
  ath :=
    { type := ascii "Predicate"
      staticGas := 0
      authenticate := fun request =>
        .ofProc (.require (accepts request.authenticatorId request.signature) .invalidSigner)
      track := fun _ => .ofProc (pure ())
      confirmExecution := fun _ => .ofProc (pure ()) }
  accepts := accepts
  ok := by
    intro request ctx h
    simp [Code.ofProc, h, require]
  error := by
    intro request ctx h
    exact ⟨.invalidSigner, by simp [Code.ofProc, h, require]⟩

/-- One of two keys, and a third one for a sub-authenticator that checks its id too; the signature is split at
the root only. -/
def sampleTree : Tree Unit :=
  .node .allOf .partitioned
    [.node .anyOf .single [.leaf (.ofPredicate fun _ s => s == [1]), .leaf (.ofPredicate fun _ s => s == [2])],
      .leaf (.ofPredicate fun id s => id == ascii "7.1" && s == [3])]

def byteParts : CompositeJSON := ⟨fun signature => some (signature.map fun b => [b]), fun _ => none⟩

def sampleRequest (signature : Bytes) : AuthenticationRequest :=
  ⟨ascii "7", [], [], [], [], ⟨[], []⟩, 0, signature, ⟨[], []⟩, ⟨[], 0, 0, 0, [], []⟩, ⟨[], []⟩, false, []⟩

def emptyContext : Context Unit := ⟨⟨0, [], false⟩, ⟨.empty, .empty, [], ()⟩, ⟨none, 0⟩⟩

theorem sampleTree_authenticates :
    sampleTree.WellFormed ∧
      ((sampleTree.authenticator byteParts).authenticate (sampleRequest [2, 3]) emptyContext).exit = .ok () ∧
      ((sampleTree.authenticator byteParts).authenticate (sampleRequest [2, 3, 3]) emptyContext).exit ≠ .ok () := by
  have hwf : sampleTree.WellFormed := by simp [sampleTree, Tree.WellFormed, Tree.AllWellFormed]
  refine ⟨hwf, ?_, ?_⟩
  · exact (authenticate_iff_formula byteParts sampleTree hwf (sampleRequest [2, 3]) emptyContext).mpr
      (by decide +kernel)
  · rw [Ne, authenticate_iff_formula byteParts sampleTree hwf]
    decide +kernel

end SmartAccount
