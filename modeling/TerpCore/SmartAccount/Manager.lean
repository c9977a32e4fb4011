/-
  The manager of authenticators: a table of types that contains the composite ones, which look up their
  sub-authenticators in the same table.  A config of a composite type is the encoding of a tree.
-/
import TerpCore.SmartAccount.Composite

namespace SmartAccount

open Lib

variable {ρ : Type}

/-! ## Managers -/

/-- What `json.Unmarshal` reads inside a text is shorter than the text. -/
structure NestedJSON extends CompositeJSON where
  config_shorter : ∀ {data : Bytes} {subs : List (Bytes × Bytes)}, initDatas data = some subs →
    ∀ sub ∈ subs, sub.2.length < data.length
  part_shorter : ∀ {signature : Bytes} {parts : List Bytes}, signatures signature = some parts →
    ∀ part ∈ parts, part.length < signature.length

def compositeType : CompositeKind → SignatureAssignment → Bytes
  | .allOf => AllOf.type
  | .anyOf => AnyOf.type

def compositeOf (type : Bytes) : Option (CompositeKind × SignatureAssignment) :=
  if type = compositeType .allOf .single then some (.allOf, .single)
  else if type = compositeType .allOf .partitioned then some (.allOf, .partitioned)
  else if type = compositeType .anyOf .single then some (.anyOf, .single)
  else if type = compositeType .anyOf .partitioned then some (.anyOf, .partitioned)
  else none

theorem compositeOf_eq_some {type : Bytes} {kind : CompositeKind} {assignment : SignatureAssignment} :
    compositeOf type = some (kind, assignment) ↔ type = compositeType kind assignment := by
  constructor
  · intro h
    unfold compositeOf at h
    split_ifs at h with h₁ h₂ h₃ h₄
    all_goals
      cases h
      assumption
  · rintro rfl
    cases kind <;> cases assignment <;> decide +kernel

structure Manager (ρ : Type) where
  json : NestedJSON
  getAuthenticatorByType : Bytes → Option (RegisteredAuthenticator ρ)
  composite : ∀ kind assignment, getAuthenticatorByType (compositeType kind assignment) =
    some (registeredComposite json.toCompositeJSON getAuthenticatorByType kind assignment)

/-! ### The manager with given leaves -/

section fixpoint

/-- What a registered authenticator does for a config. -/
def RegisteredAuthenticator.codeFor (r : RegisteredAuthenticator ρ) (config : Bytes) :
    Outcome Err (Option (Authenticator ρ)) × (Bytes → Bytes → Code ρ) × (Bytes → Bytes → Code ρ) :=
  (r.initializeConfig config, fun account id => r.onAuthenticatorAdded account config id,
    fun account id => r.onAuthenticatorRemoved account config id)

theorem RegisteredAuthenticator.ext_codeFor {r r' : RegisteredAuthenticator ρ}
    (h : ∀ config, r.codeFor config = r'.codeFor config) : r = r' := by
  obtain ⟨init, added, removed⟩ := r
  simp only [codeFor, Prod.mk.injEq] at h
  congr 1
  · funext config
    exact (h config).1
  · funext account config id
    exact congrFun₂ (h config).2.1 account id
  · funext account config id
    exact congrFun₂ (h config).2.2 account id

/-- The code that a table has for a type and a config. -/
def codeAt (am : Bytes → Option (RegisteredAuthenticator ρ)) (type config : Bytes) :
    Option (Outcome Err (Option (Authenticator ρ)) × (Bytes → Bytes → Code ρ) × (Bytes → Bytes → Code ρ)) :=
  (am type).map fun r => r.codeFor config

variable {json : CompositeJSON} {am am' : Bytes → Option (RegisteredAuthenticator ρ)}

theorem codeAt_eq_cases {type config : Bytes} (h : codeAt am type config = codeAt am' type config) :
    (am type = none ∧ am' type = none) ∨
      ∃ r r', am type = some r ∧ am' type = some r' ∧ r.codeFor config = r'.codeFor config := by
  unfold codeAt at h
  rcases hr : am type with _ | r
  · rw [hr] at h
    exact .inl ⟨rfl, Option.map_eq_none_iff.mp h.symm⟩
  · rw [hr] at h
    obtain ⟨r', hr', hcode⟩ := Option.map_eq_some_iff.mp h.symm
    exact .inr ⟨r, r', rfl, hr', hcode.symm⟩

section

variable {initDatas : List (Bytes × Bytes)} (h : ∀ d ∈ initDatas, codeAt am d.1 d.2 = codeAt am' d.1 d.2)

include h

theorem initializeSubs_congr : initializeSubs am initDatas = initializeSubs am' initDatas := by
  induction initDatas with
  | nil => rfl
  | cons initData initDatas ih =>
    obtain ⟨type, config⟩ := initData
    have htail := ih fun d hd => h d (List.mem_cons_of_mem _ hd)
    rw [initializeSubs, initializeSubs, htail]
    rcases codeAt_eq_cases (h (type, config) List.mem_cons_self) with ⟨hr, hr'⟩ | ⟨r, r', hr, hr', hcode⟩
    · rw [hr, hr']
    · rw [hr, hr']
      dsimp only
      rw [show r.initializeConfig config = r'.initializeConfig config from congrArg Prod.fst hcode]

theorem onEachSub_congr {added : Bool} {call : RegisteredAuthenticator ρ → Bytes → Bytes → Code ρ}
    {wrap : Err → Bytes → Err} {baseId : Bytes}
    (hcall : ∀ r r' config, r.codeFor config = r'.codeFor config → call r config = call r' config) :
    onEachSub am added call wrap baseId initDatas = onEachSub am' added call wrap baseId initDatas := by
  unfold onEachSub
  rw [Proc.forEach_congr_mem fun i d hd => ?_]
  rcases codeAt_eq_cases (h d hd) with ⟨hr, hr'⟩ | ⟨r, r', hr, hr', hcode⟩
  · rw [hr, hr']
  · rw [hr, hr']
    dsimp only
    rw [hcall r r' d.2 hcode]

end

theorem registeredComposite_congr {data : Bytes} {kind : CompositeKind} {assignment : SignatureAssignment}
    (h : ∀ subs, json.initDatas data = some subs → ∀ d ∈ subs, codeAt am d.1 d.2 = codeAt am' d.1 d.2) :
    (registeredComposite json am kind assignment).codeFor data =
      (registeredComposite json am' kind assignment).codeFor data := by
  simp only [RegisteredAuthenticator.codeFor, registeredComposite, initializeComposite, onSubAuthenticatorsAdded,
    onSubAuthenticatorsRemoved]
  rcases hdata : json.initDatas data with _ | subs
  · rfl
  · dsimp only
    congr 1
    · rw [initializeSubs_congr (h subs hdata)]
    · congr 1
      · funext account id
        rw [onEachSub_congr (h subs hdata) fun r r' config hcode => ?_]
        exact congrFun (congrArg (fun code => code.2.1) hcode) account
      · funext account id
        rw [onEachSub_congr (h subs hdata) fun r r' config hcode => ?_]
        exact congrFun (congrArg (fun code => code.2.2) hcode) account

/-- The table in which the composites go down `depth` levels. -/
def tableAt (json : CompositeJSON) (leaves : Bytes → Option (RegisteredAuthenticator ρ)) :
    ℕ → Bytes → Option (RegisteredAuthenticator ρ)
  | 0, type => if (compositeOf type).isSome then none else leaves type
  | depth + 1, type =>
    match compositeOf type with
    | none => leaves type
    | some (kind, assignment) => some (registeredComposite json (tableAt json leaves depth) kind assignment)

/-- The table of all levels: there are no more of them than the config has bytes. -/
def table (json : CompositeJSON) (leaves : Bytes → Option (RegisteredAuthenticator ρ)) (type : Bytes) :
    Option (RegisteredAuthenticator ρ) :=
  match compositeOf type with
  | none => leaves type
  | some (kind, assignment) =>
    let composite := fun config : Bytes =>
      registeredComposite json (tableAt json leaves config.length) kind assignment
    some
      { initializeConfig := fun config => (composite config).initializeConfig config
        onAuthenticatorAdded := fun account config id =>
          (composite config).onAuthenticatorAdded account config id
        onAuthenticatorRemoved := fun account config id =>
          (composite config).onAuthenticatorRemoved account config id }

variable {nested : NestedJSON} {leaves : Bytes → Option (RegisteredAuthenticator ρ)}

theorem codeAt_tableAt (n : ℕ) : ∀ (type config : Bytes), config.length < n → ∀ m m', n ≤ m → n ≤ m' →
    codeAt (tableAt nested.toCompositeJSON leaves m) type config =
      codeAt (tableAt nested.toCompositeJSON leaves m') type config := by
  induction n with
  | zero =>
    omega
  | succ n ih =>
    intro type config hconfig m m' hm hm'
    obtain ⟨l, rfl⟩ : ∃ l, m = l + 1 := ⟨m - 1, by omega⟩
    obtain ⟨l', rfl⟩ : ∃ l', m' = l' + 1 := ⟨m' - 1, by omega⟩
    rcases hcomposite : compositeOf type with _ | ⟨kind, assignment⟩
    · simp only [codeAt, tableAt, hcomposite]
    · simp only [codeAt, tableAt, hcomposite, Option.map_some]
      rw [registeredComposite_congr fun subs hsubs d hd => ?_]
      have hshorter := nested.config_shorter hsubs d hd
      exact ih d.1 d.2 (by omega) l l' (by omega) (by omega)

theorem codeAt_table {type config : Bytes} {m : ℕ} (hm : config.length < m) :
    codeAt (tableAt nested.toCompositeJSON leaves m) type config =
      codeAt (table nested.toCompositeJSON leaves) type config := by
  obtain ⟨l, rfl⟩ : ∃ l, m = l + 1 := ⟨m - 1, by omega⟩
  rcases hcomposite : compositeOf type with _ | ⟨kind, assignment⟩
  · simp only [codeAt, tableAt, table, hcomposite]
  · simp only [codeAt, tableAt, table, hcomposite]
    refine congrArg some (registeredComposite_congr fun subs hsubs d hd => ?_)
    have hshorter := nested.config_shorter hsubs d hd
    exact codeAt_tableAt (d.2.length + 1) d.1 d.2 (by omega) l config.length (by omega) (by omega)

def Manager.ofLeaves (nested : NestedJSON) (leaves : Bytes → Option (RegisteredAuthenticator ρ)) : Manager ρ where
  json := nested
  getAuthenticatorByType := table nested.toCompositeJSON leaves
  composite := by
    intro kind assignment
    have hcomposite := compositeOf_eq_some.mpr (rfl : compositeType kind assignment = _)
    rw [table, hcomposite]
    refine congrArg some (RegisteredAuthenticator.ext_codeFor fun config => ?_)
    exact registeredComposite_congr fun subs hsubs d hd => codeAt_table (nested.config_shorter hsubs d hd)

theorem Manager.ofLeaves_of_none {type : Bytes} (h : compositeOf type = none) :
    (Manager.ofLeaves nested leaves).getAuthenticatorByType type = leaves type := by
  show table nested.toCompositeJSON leaves type = leaves type
  rw [table, h]

end fixpoint

/-! ## Composite code -/

/-- What a composite has after its code, however that ended. -/
def settle (ctx : Context ρ) (_ : Exit Err Unit) (ctx' : Context ρ) : Context ρ :=
  { ctx with
    store := { ctx'.store with fees := ctx.store.fees }
    gasMeter := { ctx.gasMeter with consumed := ctx'.gasMeter.consumed } }

/-- What is left of the stores after a cache. -/
def settleCache (ctx : Context ρ) (x : Exit Err Unit) (ctx' : Context ρ) : Context ρ :=
  match x with
  | .ok _ => ctx'
  | _ => { ctx' with store := ctx.store }

theorem writeOnSuccess_eq (p : Proc (Context ρ) Err Unit) : AnyOf.writeOnSuccess p = .adjust settleCache p := by
  funext ctx
  unfold AnyOf.writeOnSuccess Proc.adjust
  rcases p ctx with ⟨x, ctx'⟩
  cases x with
  | ok u | error e | outOfGas | panicked => rfl

/-! ## Trees -/

/-- A leaf of a tree: a type that is no composite, and the instance for a config. -/
structure LeafInstance (ρ : Type) where
  type : Bytes
  config : Bytes
  registered : RegisteredAuthenticator ρ
  ath : Authenticator ρ

inductive AuthTree (ρ : Type) where
  | leaf (l : LeafInstance ρ)
  | node (kind : CompositeKind) (assignment : SignatureAssignment) (subs : List (AuthTree ρ))

/-- Induction on trees: a node has the property if its children have it. -/
theorem AuthTree.rec_mem {motive : AuthTree ρ → Prop} (leaf : ∀ l, motive (.leaf l))
    (node : ∀ kind assignment subs, (∀ t ∈ subs, motive t) → motive (.node kind assignment subs)) :
    ∀ t, motive t := by
  refine @AuthTree.rec ρ motive (fun subs => ∀ t ∈ subs, motive t) leaf node (by simp) ?_
  intro t ts ht hts u hu
  rcases List.mem_cons.mp hu with rfl | hu
  · exact ht
  · exact hts u hu

def compositeAuthenticator (json : CompositeJSON) (kind : CompositeKind) (assignment : SignatureAssignment)
    (subAuthenticators : List (Authenticator ρ)) : Authenticator ρ :=
  match kind with
  | .allOf => AllOf.toAuthenticator json assignment subAuthenticators
  | .anyOf => AnyOf.toAuthenticator json assignment subAuthenticators

mutual

def AuthTree.authenticator (json : CompositeJSON) : AuthTree ρ → Authenticator ρ
  | .leaf l => l.ath
  | .node kind assignment subs => compositeAuthenticator json kind assignment (AuthTree.authenticators json subs)

def AuthTree.authenticators (json : CompositeJSON) : List (AuthTree ρ) → List (Authenticator ρ)
  | [] => []
  | t :: ts => t.authenticator json :: AuthTree.authenticators json ts

end

theorem AuthTree.authenticators_eq (json : CompositeJSON) (ts : List (AuthTree ρ)) :
    AuthTree.authenticators json ts = ts.map (AuthTree.authenticator json) := by
  induction ts with
  | nil => rfl
  | cons t ts ih => rw [AuthTree.authenticators, ih, List.map_cons]

mutual

/-- The tree of a type and a config: it has the nodes and the children that the config lists. -/
def AuthTree.Built (m : Manager ρ) : AuthTree ρ → (type config : Bytes) → Prop
  | .leaf l, type, config => compositeOf type = none ∧ l.type = type ∧ l.config = config ∧
      m.getAuthenticatorByType type = some l.registered ∧ l.registered.initializeConfig config = .ok (some l.ath)
  | .node kind assignment subs, type, config => type = compositeType kind assignment ∧
      ∃ initDatas, m.json.initDatas config = some initDatas ∧ 2 ≤ initDatas.length ∧
        AuthTree.AllBuilt m subs initDatas

def AuthTree.AllBuilt (m : Manager ρ) : List (AuthTree ρ) → List (Bytes × Bytes) → Prop
  | [], [] => True
  | t :: ts, initData :: initDatas => t.Built m initData.1 initData.2 ∧ AuthTree.AllBuilt m ts initDatas
  | _, _ => False

end

section built

variable {m : Manager ρ} {t : AuthTree ρ} {type config : Bytes}

theorem AuthTree.allBuilt_iff (ts : List (AuthTree ρ)) : ∀ initDatas, AuthTree.AllBuilt m ts initDatas ↔
    List.Forall₂ (fun t (d : Bytes × Bytes) => t.Built m d.1 d.2) ts initDatas := by
  induction ts with
  | nil =>
    intro initDatas
    cases initDatas with
    | nil | cons => simp [AuthTree.AllBuilt]
  | cons t ts ih =>
    intro initDatas
    cases initDatas with
    | nil => simp [AuthTree.AllBuilt]
    | cons => simp [AuthTree.AllBuilt, ih]

section

variable {ts : List (AuthTree ρ)} {initDatas : List (Bytes × Bytes)} (h : AuthTree.AllBuilt m ts initDatas)

include h

theorem AuthTree.AllBuilt.built {j : ℕ} {d : Bytes × Bytes} (ht : ts[j]? = some t)
    (hd : initDatas[j]? = some d) : t.Built m d.1 d.2 := by
  obtain ⟨hj, rfl⟩ := List.getElem?_eq_some_iff.mp ht
  obtain ⟨hj', rfl⟩ := List.getElem?_eq_some_iff.mp hd
  exact ((AuthTree.allBuilt_iff ts initDatas).mp h).get hj hj'

theorem AuthTree.AllBuilt.length_eq : ts.length = initDatas.length :=
  ((AuthTree.allBuilt_iff ts initDatas).mp h).length_eq

end

theorem AuthTree.Built.exists_registered (h : t.Built m type config) :
    ∃ registered, m.getAuthenticatorByType type = some registered := by
  cases t with
  | leaf l =>
    obtain ⟨-, -, -, hregistered, -⟩ := h
    exact ⟨_, hregistered⟩
  | node kind assignment subs =>
    obtain ⟨rfl, -⟩ := h
    exact ⟨_, m.composite kind assignment⟩

end built

end SmartAccount
