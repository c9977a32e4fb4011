/-
  `ConfirmExecution` of a tree.  `AnyOf` runs its sub-authenticators from the stores it was called with, one after
  another, until one succeeds, and only what that one wrote is kept.
-/
import TerpCore.SmartAccount.Formula
import TerpCore.SmartAccount.Manager

namespace SmartAccount

open Lib Proc

variable {ρ : Type}

def Context.withGas (ctx : Context ρ) (consumed : UInt64) : Context ρ :=
  { ctx with gasMeter := { ctx.gasMeter with consumed := consumed } }

def AuthenticationRequest.child (request : AuthenticationRequest) (i : ℕ) (signature : Bytes) : AuthenticationRequest :=
  { request with authenticatorId := compositeId request.authenticatorId i, signature := signature }

def AuthTree.confirm (json : CompositeJSON) (t : AuthTree ρ) (request : AuthenticationRequest) :
    Proc (Context ρ) Err Unit := ((t.authenticator json).confirmExecution request).exec

/-! ## What is committed -/

/-- The successful runs of leaves that a successful run of a tree is made of: all children of `AllOf`, one after
another, and one child of `AnyOf`, from where the node began.  The gas of what was discarded is consumed. -/
inductive AuthTree.Commits (json : CompositeJSON) :
    AuthTree ρ → AuthenticationRequest → Context ρ → Context ρ → Prop
  | leaf {l : LeafInstance ρ} {request : AuthenticationRequest} {ctx ctx' : Context ρ} :
      (l.ath.confirmExecution request).exec ctx = (.ok (), ctx') → Commits json (.leaf l) request ctx ctx'
  | allOf {assignment : SignatureAssignment} {subs : List (AuthTree ρ)} {request : AuthenticationRequest}
      (states : ℕ → Context ρ) (signatures : ℕ → Bytes) :
      (∀ i, i < subs.length →
        subSignature json assignment request.signature subs.length i = some (signatures i)) →
      (∀ i t, subs[i]? = some t →
        Commits json t (request.child i (signatures i)) (states i) (states (i + 1))) →
      Commits json (.node .allOf assignment subs) request (states 0) (states subs.length)
  | anyOf {assignment : SignatureAssignment} {subs : List (AuthTree ρ)} {request : AuthenticationRequest}
      {ctx ctx' : Context ρ} {i : ℕ} {t : AuthTree ρ} {signature : Bytes} (gas : UInt64) :
      subs[i]? = some t → subSignature json assignment request.signature subs.length i = some signature →
      Commits json t (request.child i signature) (ctx.withGas gas) ctx' →
      Commits json (.node .anyOf assignment subs) request ctx ctx'

/-! ## Contexts -/

/-- What authenticators leave alone. -/
def Context.outer (ctx : Context ρ) : Header × List Tx × Option UInt64 :=
  (ctx.header, ctx.store.fees, ctx.gasMeter.limit)

theorem settle_of_outer {ctx ctx' : Context ρ} {x : Exit Err Unit} (h : ctx'.outer = ctx.outer) :
    settle ctx x ctx' = ctx' := by
  obtain ⟨hheader, hrest⟩ := Prod.mk.inj h
  obtain ⟨hfees, hlimit⟩ := Prod.mk.inj hrest
  simp only [settle, ← hheader, ← hfees, ← hlimit]

theorem keeps_outer (code : Code ρ) : Proc.Keeps (Proc.Same Context.outer) code.exec := fun _ => rfl

/-! ## `AnyOf` -/

section anyOf

variable {json : CompositeJSON} {assignment : SignatureAssignment} {sigs : List Bytes}
  {request : AuthenticationRequest} {ctx : Context ρ}

theorem writeOnSuccess_of_error {code : Code ρ} {gas : UInt64} {e : Err} {left : Context ρ}
    (h : code.exec (ctx.withGas gas) = (.error e, left)) :
    AnyOf.writeOnSuccess code.exec (ctx.withGas gas) = (.error e, ctx.withGas left.gasMeter.consumed) := by
  rw [AnyOf.writeOnSuccess, h]
  have hleft : left = (code.exec (ctx.withGas gas)).2 := by rw [h]
  rw [hleft]
  rfl

/-- The loop ends with the first child that succeeds from the stores of the entry, in the context it leaves, or does
not return and leaves the stores. -/
theorem AnyOf.confirm_loop (ctx : Context ρ) (sub : ℕ → AuthenticationRequest) (auths : List (Authenticator ρ)) :
    ∀ (i : ℕ) (errors : List (Bytes × Bytes × String)) (g₀ : UInt64),
    (∀ j, j < auths.length → subRequest assignment sigs request (i + j) = .ok (sub (i + j))) →
    ∀ r, AnyOf.callUntil assignment (fun auth sub => AnyOf.writeOnSuccess (auth.confirmExecution sub).exec) sigs
        request (fun errors => .fail (.allFailedToConfirm errors)) i errors auths (ctx.withGas g₀) = r →
      (r.1 = .ok () ∧ ∃ (k : ℕ) (gas : ℕ → UInt64) (auth : Authenticator ρ), gas 0 = g₀ ∧ auths[k]? = some auth ∧
        (∀ j, j < k → ∃ auth e left, auths[j]? = some auth ∧
          (auth.confirmExecution (sub (i + j))).exec (ctx.withGas (gas j)) = (.error e, left) ∧
            left.gasMeter.consumed = gas (j + 1)) ∧
        (auth.confirmExecution (sub (i + k))).exec (ctx.withGas (gas k)) = (.ok (), r.2)) ∨
      (r.1 ≠ .ok () ∧ r.2.store = ctx.store) := by
  induction auths with
  | nil =>
    rintro i errors g₀ - r rfl
    exact .inr ⟨by rintro ⟨⟩, rfl⟩
  | cons auth auths ih =>
    rintro i errors g₀ hsub r rfl
    have hfirst : subRequest assignment sigs request i = .ok (sub i) := hsub 0 (Nat.zero_lt_succ _)
    rcases hrun : (auth.confirmExecution (sub i)).exec (ctx.withGas g₀) with ⟨x, left⟩
    cases x with
    | ok u =>
      have hcall : AnyOf.writeOnSuccess (auth.confirmExecution (sub i)).exec (ctx.withGas g₀) = (.ok (), left) := by
        rw [AnyOf.writeOnSuccess, hrun]
      rw [AnyOf.callUntil_of_ok hfirst hcall]
      exact .inl ⟨rfl, 0, fun _ => g₀, auth, rfl, rfl, by simp, hrun⟩
    | error e =>
      rw [AnyOf.callUntil_of_error hfirst (writeOnSuccess_of_error hrun)]
      have hrest : ∀ j, j < auths.length → subRequest assignment sigs request (i + 1 + j) = .ok (sub (i + 1 + j)) := by
        intro j hj
        have := hsub (j + 1) (Nat.succ_lt_succ hj)
        rwa [show i + (j + 1) = i + 1 + j by omega] at this
      rcases ih (i + 1) _ left.gasMeter.consumed hrest _ rfl with
        ⟨hok, k, gas, last, hgas, hlast, hbefore, hcommit⟩ | hfail
      · refine .inl ⟨hok, k + 1, fun j => Nat.casesOn j g₀ gas, last, rfl, hlast, ?_, ?_⟩
        · intro j hj
          cases j with
          | zero => exact ⟨auth, e, left, rfl, hrun, hgas.symm⟩
          | succ j =>
            obtain ⟨a, e', left', ha, hfails, hnext⟩ := hbefore j (by omega)
            rw [show i + 1 + j = i + (j + 1) by omega] at hfails
            exact ⟨a, e', left', ha, hfails, hnext⟩
        · rw [show i + (k + 1) = i + 1 + k by omega]
          exact hcommit
      · exact .inr hfail
    | outOfGas | panicked =>
      rw [AnyOf.callUntil, hfirst, ofOutcome_ok, pure_bind, catchError, AnyOf.writeOnSuccess, hrun]
      exact .inr ⟨by rintro ⟨⟩, rfl⟩

/-- How the child at a place ends, called with the stores of the entry and some gas consumed. -/
def AuthTree.ChildEnds (json : CompositeJSON) (assignment : SignatureAssignment) (subs : List (AuthTree ρ))
    (request : AuthenticationRequest) (ctx : Context ρ) (i : ℕ) (gas : UInt64) (r : Exit Err Unit × Context ρ) :
    Prop :=
  ∃ t signature, subs[i]? = some t ∧
    subSignature json assignment request.signature subs.length i = some signature ∧
    t.confirm json (request.child i signature) (ctx.withGas gas) = r

theorem exists_requests {total : ℕ} (hsigs : assignedSignatures json assignment request.signature total = .ok sigs) :
    ∃ signatures : ℕ → Bytes, ∀ i, i < total →
      subSignature json assignment request.signature total i = some (signatures i) ∧
        subRequest assignment sigs request i = .ok (request.child i (signatures i)) := by
  refine ⟨fun i => (subSignature json assignment request.signature total i).getD [], fun i hi => ?_⟩
  obtain ⟨s, hs, hrequest⟩ := subRequest_eq hsigs hi
  dsimp only
  rw [hs]
  exact ⟨rfl, hrequest⟩

theorem settle_store {ctx' : Context ρ} (x : Exit Err Unit) (h : ctx'.store = ctx.store) :
    (settle ctx x ctx').store = ctx.store := by
  rw [settle, h]

theorem AuthTree.confirm_anyOf {subs : List (AuthTree ρ)} {r : Exit Err Unit × Context ρ}
    (hr : (AuthTree.node .anyOf assignment subs).confirm json request ctx = r) :
    (r.1 = .ok () ∧ ∃ (i : ℕ) (gas : ℕ → UInt64), gas 0 = ctx.gasMeter.consumed ∧
      (∀ j, j < i → ∃ e left, AuthTree.ChildEnds json assignment subs request ctx j (gas j) (.error e, left) ∧
        left.gasMeter.consumed = gas (j + 1)) ∧
      AuthTree.ChildEnds json assignment subs request ctx i (gas i) (.ok (), r.2)) ∨
    (r.1 ≠ .ok () ∧ r.2.store = ctx.store) := by
  have hlength : (AuthTree.authenticators json subs).length = subs.length := by
    rw [AuthTree.authenticators_eq, List.length_map]
  rcases hp : AnyOf.confirmExecution json assignment (AuthTree.authenticators json subs) request ctx with ⟨x, ctx'⟩
  obtain rfl : r = (x, settle ctx x ctx') := by
    rw [← hr]
    show adjust settle (AnyOf.confirmExecution json assignment (AuthTree.authenticators json subs) request) ctx = _
    rw [adjust, hp]
  rw [AnyOf.confirmExecution, hlength] at hp
  rcases hsigs : assignedSignatures json assignment request.signature subs.length with sigs | e | _
  · rw [hsigs] at hp
    obtain ⟨signatures, hrequests⟩ := exists_requests hsigs
    -- a sub-authenticator of the loop is that of a child
    have hchild : ∀ {j auth}, (AuthTree.authenticators json subs)[j]? = some auth → ∀ gas r,
        (auth.confirmExecution (request.child j (signatures j))).exec (ctx.withGas gas) = r →
        AuthTree.ChildEnds json assignment subs request ctx j gas r := by
      intro j auth hauth gas r hrun
      rw [AuthTree.authenticators_eq, List.getElem?_map] at hauth
      obtain ⟨t, ht, rfl⟩ := Option.map_eq_some_iff.mp hauth
      obtain ⟨hj, -⟩ := List.getElem?_eq_some_iff.mp ht
      exact ⟨t, signatures j, ht, (hrequests j hj).1, hrun⟩
    have hloop := AnyOf.confirm_loop ctx (fun j => request.child j (signatures j))
      (AuthTree.authenticators json subs) 0 [] ctx.gasMeter.consumed (fun j hj => by
        rw [Nat.zero_add]
        exact (hrequests j (hlength ▸ hj)).2) _ hp
    simp only [Nat.zero_add] at hloop
    rcases hloop with ⟨hok, i, gas, auth, hzero, hauth, hbefore, hcommit⟩ | ⟨hfail, hstore⟩
    · have houter : ctx'.outer = (ctx.withGas (gas i)).outer := (keeps_outer _).of_eq hcommit
      rw [settle_of_outer (houter.trans (rfl : _ = ctx.outer))]
      refine .inl ⟨hok, i, gas, hzero, fun j hj => ?_, hchild hauth (gas i) _ hcommit⟩
      obtain ⟨auth', e, left, hauth', hrun, hnext⟩ := hbefore j hj
      exact ⟨e, left, hchild hauth' (gas j) _ hrun, hnext⟩
    · exact .inr ⟨hfail, settle_store x hstore⟩
  · rw [hsigs] at hp
    cases hp
    exact .inr ⟨by rintro ⟨⟩, rfl⟩
  · rw [hsigs] at hp
    cases hp
    exact .inr ⟨by rintro ⟨⟩, rfl⟩

end anyOf

/-! ## `AllOf` -/

theorem AuthTree.confirm_allOf {json : CompositeJSON} {assignment : SignatureAssignment} {subs : List (AuthTree ρ)}
    {request : AuthenticationRequest} {ctx ctx' : Context ρ}
    (h : (AuthTree.node .allOf assignment subs).confirm json request ctx = (.ok (), ctx')) :
    ∃ (states : ℕ → Context ρ) (signatures : ℕ → Bytes), states 0 = ctx ∧ states subs.length = ctx' ∧
      (∀ i, i < subs.length →
        subSignature json assignment request.signature subs.length i = some (signatures i)) ∧
      ∀ i t, subs[i]? = some t →
        t.confirm json (request.child i (signatures i)) (states i) = (.ok (), states (i + 1)) := by
  have hlength : (AuthTree.authenticators json subs).length = subs.length := by
    rw [AuthTree.authenticators_eq, List.length_map]
  rcases hp : AllOf.confirmExecution json assignment (AuthTree.authenticators json subs) request ctx with ⟨x, last⟩
  have hadjust : adjust settle
      (AllOf.confirmExecution json assignment (AuthTree.authenticators json subs) request) ctx = (.ok (), ctx') := h
  rw [adjust, hp] at hadjust
  obtain ⟨rfl, hctx'⟩ := Prod.mk.inj hadjust
  obtain ⟨sigs, c, hsplit, hcalls⟩ := bind_eq_ok.mp hp
  obtain ⟨hsigs, rfl⟩ := ofOutcome_eq_ok.mp hsplit
  obtain ⟨bs, d, hloop, hpure⟩ := bind_eq_ok.mp hcalls
  obtain ⟨-, rfl⟩ := pure_eq_ok.mp hpure
  -- the loop leaves alone what a composite gives back to its caller
  have hbody : ∀ (j : ℕ) (auth : Authenticator ρ), Proc.Keeps (Proc.Same Context.outer) (do
      let sub ← ofOutcome (subRequest assignment sigs request j)
      (auth.confirmExecution sub).exec) := fun _ _ =>
    keeps_bind (keeps_ofOutcome _) fun _ => keeps_outer _
  have houter : d.outer = ctx.outer := (keeps_forEach _ 0 fun j auth _ => hbody j auth).of_eq hloop
  rw [settle_of_outer houter] at hctx'
  rw [hlength] at hsigs
  obtain ⟨signatures, hrequests⟩ := exists_requests hsigs
  obtain ⟨states, hfirst, hlast, hstep⟩ := forEach_eq_ok_states hloop
  rw [hlength] at hlast
  refine ⟨states, signatures, hfirst, hlast.trans hctx', fun i hi => (hrequests i hi).1, fun i t ht => ?_⟩
  obtain ⟨hi, -⟩ := List.getElem?_eq_some_iff.mp ht
  have hauth : (AuthTree.authenticators json subs)[i]? = some (t.authenticator json) := by
    rw [AuthTree.authenticators_eq, List.getElem?_map, ht]
    rfl
  obtain ⟨b, hrun⟩ := hstep i _ hauth
  rw [Nat.zero_add, (hrequests i hi).2] at hrun
  exact hrun

/-! ## Trees -/

/-- A tree that succeeds has committed the runs of one branch at each `AnyOf`, and no others. -/
theorem AuthTree.commits_of_confirm (json : CompositeJSON) (t : AuthTree ρ) : ∀ request ctx ctx',
    t.confirm json request ctx = (.ok (), ctx') → t.Commits json request ctx ctx' := by
  induction t using AuthTree.rec_mem with
  | leaf l => exact fun _ _ _ h => .leaf h
  | node kind assignment subs ih =>
    intro request ctx ctx' h
    cases kind with
    | allOf =>
      obtain ⟨states, signatures, rfl, rfl, hsignatures, hruns⟩ := AuthTree.confirm_allOf h
      exact .allOf states signatures hsignatures fun i t ht =>
        ih t (List.mem_of_getElem? ht) _ _ _ (hruns i t ht)
    | anyOf =>
      rcases AuthTree.confirm_anyOf h with ⟨-, i, gas, -, -, t, signature, ht, hsignature, hrun⟩ | ⟨hne, -⟩
      · exact .anyOf (gas i) ht hsignature (ih t (List.mem_of_getElem? ht) _ _ _ hrun)
      · exact absurd rfl hne

/-- `AnyOf` keeps what one child wrote, the first that succeeds from the stores of the entry; of those before it only
the gas is kept.  This child has committed one branch at each `AnyOf` in it.  If none succeeds, the stores are as they
were. -/
theorem anyOf_commits_one_branch (json : CompositeJSON) (assignment : SignatureAssignment)
    (subs : List (AuthTree ρ)) (request : AuthenticationRequest) (ctx : Context ρ) :
    (((AuthTree.node .anyOf assignment subs).confirm json request ctx).1 = .ok () →
      ∃ (i : ℕ) (t : AuthTree ρ) (signature : Bytes) (gas : ℕ → UInt64), subs[i]? = some t ∧
        subSignature json assignment request.signature subs.length i = some signature ∧
        gas 0 = ctx.gasMeter.consumed ∧
        (∀ j, j < i → ∃ e left, AuthTree.ChildEnds json assignment subs request ctx j (gas j) (.error e, left) ∧
          left.gasMeter.consumed = gas (j + 1)) ∧
        (AuthTree.node .anyOf assignment subs).confirm json request ctx =
          t.confirm json (request.child i signature) (ctx.withGas (gas i)) ∧
        t.Commits json (request.child i signature) (ctx.withGas (gas i))
          ((AuthTree.node .anyOf assignment subs).confirm json request ctx).2) ∧
    (((AuthTree.node .anyOf assignment subs).confirm json request ctx).1 ≠ .ok () →
      ((AuthTree.node .anyOf assignment subs).confirm json request ctx).2.store = ctx.store) := by
  generalize hr : (AuthTree.node .anyOf assignment subs).confirm json request ctx = r
  rcases AuthTree.confirm_anyOf hr with
    ⟨hok, i, gas, hzero, hbefore, t, signature, ht, hsignature, hrun⟩ | ⟨hne, hstore⟩
  · refine ⟨fun _ => ⟨i, t, signature, gas, ht, hsignature, hzero, hbefore, ?_, ?_⟩, fun hne => absurd hok hne⟩
    · rw [hrun]
      exact Prod.ext hok rfl
    · exact t.commits_of_confirm json _ _ _ hrun
  · exact ⟨fun hok => absurd hok hne, fun _ => hstore⟩

namespace SampleConfirm

def leaf (confirm : Proc (Context ℕ) Err Unit) : AuthTree ℕ :=
  .leaf
    { type := ascii "Leaf"
      config := []
      registered := ⟨fun _ => .ok none, fun _ _ _ => .ofProc (pure ()), fun _ _ _ => .ofProc (pure ())⟩
      ath := ⟨ascii "Leaf", 0, fun _ => .ofProc (pure ()), fun _ => .ofProc (pure ()), fun _ => .ofProc confirm⟩ }

def writing (n : ℕ) : AuthTree ℕ :=
  leaf (.modify fun ctx => { ctx with store := { ctx.store with rest := n } })

/-- The first branch fails after it has written. -/
def branches : List (AuthTree ℕ) := [.node .allOf .single [writing 1, leaf (.fail .invalidSigner)], writing 2]

def entry : Context ℕ := ⟨⟨0, [], false⟩, ⟨.empty, .empty, [], 0⟩, ⟨none, 0⟩⟩

end SampleConfirm

theorem failing_branch_discarded :
    ((AuthTree.node .anyOf .single SampleConfirm.branches).confirm byteParts (sampleRequest [1])
      SampleConfirm.entry).2.store.rest = 2 ∧
    ∃ (i : ℕ) (t : AuthTree ℕ) (signature : Bytes) (gas : UInt64), SampleConfirm.branches[i]? = some t ∧
      (AuthTree.node .anyOf .single SampleConfirm.branches).confirm byteParts (sampleRequest [1]) SampleConfirm.entry =
        t.confirm byteParts ((sampleRequest [1]).child i signature) (SampleConfirm.entry.withGas gas) := by
  obtain ⟨i, t, signature, gas, ht, -, -, -, hrun, -⟩ := (anyOf_commits_one_branch byteParts .single
    SampleConfirm.branches (sampleRequest [1]) SampleConfirm.entry).1 (by decide +kernel)
  exact ⟨by decide +kernel, i, t, signature, gas i, ht, hrun⟩

end SmartAccount
