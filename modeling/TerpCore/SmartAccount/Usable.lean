/-
  What can be added can be used: a config that `OnAuthenticatorAdded` accepts is the encoding of a tree, and
  `Initialize` makes this tree of it.
-/
import TerpCore.SmartAccount.Authenticators
import TerpCore.SmartAccount.Formula
import TerpCore.SmartAccount.Ids

namespace SmartAccount

open Lib Proc List

variable {ρ : Type}

/-! ## `Initialize` -/

section build

variable {m : Manager ρ}

theorem initializeSubs_of_built {subs : List (AuthTree ρ)} {initDatas : List (Bytes × Bytes)}
    (ih : ∀ t ∈ subs, ∀ type config registered, t.Built m type config →
      m.getAuthenticatorByType type = some registered →
      registered.initializeConfig config = .ok (some (t.authenticator m.json.toCompositeJSON)))
    (h : AuthTree.AllBuilt m subs initDatas) :
    initializeSubs m.getAuthenticatorByType initDatas = .ok (AuthTree.authenticators m.json.toCompositeJSON subs) := by
  induction subs generalizing initDatas with
  | nil =>
    cases initDatas with
    | nil => rfl
    | cons => exact h.elim
  | cons t ts ihts =>
    cases initDatas with
    | nil => exact h.elim
    | cons d ds =>
      obtain ⟨type, config⟩ := d
      obtain ⟨ht, hts⟩ := h
      obtain ⟨registered, hregistered⟩ := ht.exists_registered
      have hfirst := ih t mem_cons_self type config registered ht hregistered
      have hrest := ihts (fun u hu => ih u (mem_cons_of_mem t hu)) hts
      rw [initializeSubs, hregistered]
      dsimp only
      rw [hfirst]
      rw [hrest]
      rfl

theorem AuthTree.Built.initializeConfig (t : AuthTree ρ) : ∀ type config registered, t.Built m type config →
    m.getAuthenticatorByType type = some registered →
    registered.initializeConfig config = .ok (some (t.authenticator m.json.toCompositeJSON)) := by
  induction t using AuthTree.rec_mem with
  | leaf l =>
    rintro type config registered ⟨-, rfl, rfl, hl, hinit⟩ hregistered
    cases hl.symm.trans hregistered
    exact hinit
  | node kind assignment subs ih =>
    rintro type config registered ⟨rfl, initDatas, hdata, htwo, hsubs⟩ hregistered
    cases (m.composite kind assignment).symm.trans hregistered
    show initializeComposite _ _ kind assignment config = _
    rw [initializeComposite, hdata]
    dsimp only
    rw [if_neg (by omega), initializeSubs_of_built ih hsubs]
    cases kind with
    | allOf | anyOf => rfl

end build

/-! ## `OnAuthenticatorAdded` -/

/-- What it accepts can be initialized. -/
def RegisteredAuthenticator.Usable (r : RegisteredAuthenticator ρ) : Prop :=
  ∀ account config id ctx, (r.onAuthenticatorAdded account config id ctx).exit = .ok () →
    ∃ inst, r.initializeConfig config = .ok (some inst)

section usable

variable {host : Host ρ}

theorem SignatureVerification.usable : (SignatureVerification.registered host).Usable :=
  fun _ _ _ _ _ => ⟨_, rfl⟩

theorem exit_ofOutcome {x : Outcome Err Unit} {ctx : Context ρ}
    (h : (Code.ofProc (.ofOutcome x) ctx).exit = .ok ()) : x = .ok () := by
  cases x with
  | ok u => rfl
  | error | panicked => cases h

theorem MessageFilter.usable : (MessageFilter.registered host).Usable := by
  intro account config id ctx h
  have hadded : MessageFilter.onAuthenticatorAdded host config = .ok () := exit_ofOutcome h
  obtain ⟨_, hvalid, -⟩ := Outcome.bind_eq_ok.mp hadded
  show ∃ inst, MessageFilter.initializeConfig host config = .ok (some inst)
  rw [MessageFilter.initializeConfig, hvalid]
  exact ⟨_, rfl⟩

theorem CosmwasmAuthenticator.usable : (CosmwasmAuthenticator.registered host).Usable := by
  intro account config id ctx h
  have hadded : (CosmwasmAuthenticator.onAuthenticatorAdded host account config id ctx).1 = .ok () := h
  obtain ⟨⟨contractAddr, params⟩, _, hparse, -⟩ := bind_eq_ok.mp (Prod.ext hadded rfl)
  obtain ⟨hparse, -⟩ := ofOutcome_eq_ok.mp hparse
  show ∃ inst, CosmwasmAuthenticator.initializeConfig host config = .ok (some inst)
  rw [CosmwasmAuthenticator.initializeConfig, hparse]
  exact ⟨_, rfl⟩

theorem ZkProofAuthenticatorV1.usable : (ZkProofAuthenticatorV1.registered host).Usable := by
  intro account config id ctx h
  have hadded : ZkProofAuthenticatorV1.onAuthenticatorAdded host config = .ok () := exit_ofOutcome h
  obtain ⟨cfg, hparse, -⟩ := Outcome.bind_eq_ok.mp hadded
  show ∃ inst, ZkProofAuthenticatorV1.initializeConfig host config = .ok (some inst)
  rw [ZkProofAuthenticatorV1.initializeConfig, hparse]
  exact ⟨_, rfl⟩

theorem usable_of_mem_leafTypes {type : Bytes} {r : RegisteredAuthenticator ρ}
    (h : (leafTypes host).lookup type = some r) : r.Usable := by
  obtain ⟨before, after, hsplit, -⟩ := lookup_eq_some_iff.mp h
  have hmem : (type, r) ∈ leafTypes host := by
    rw [hsplit]
    simp
  simp only [leafTypes, mem_cons, not_mem_nil, or_false] at hmem
  rcases hmem with h | h | h | h
  · obtain ⟨-, rfl⟩ := Prod.mk.inj h
    exact SignatureVerification.usable
  · obtain ⟨-, rfl⟩ := Prod.mk.inj h
    exact MessageFilter.usable
  · obtain ⟨-, rfl⟩ := Prod.mk.inj h
    exact CosmwasmAuthenticator.usable
  · cases h
    exact ZkProofAuthenticatorV1.usable

end usable

section added

variable {m : Manager ρ}

theorem exists_allBuilt {initDatas : List (Bytes × Bytes)}
    (h : ∀ d ∈ initDatas, ∃ t : AuthTree ρ, t.Built m d.1 d.2) : ∃ subs, AuthTree.AllBuilt m subs initDatas := by
  induction initDatas with
  | nil => exact ⟨[], trivial⟩
  | cons d ds ih =>
    obtain ⟨t, ht⟩ := h d mem_cons_self
    obtain ⟨ts, hts⟩ := ih fun e he => h e (mem_cons_of_mem d he)
    exact ⟨t :: ts, ht, hts⟩

theorem onEachSub_eq_ok {am : Bytes → Option (RegisteredAuthenticator ρ)} {added : Bool}
    {call : RegisteredAuthenticator ρ → Bytes → Bytes → Code ρ} {wrap : Err → Bytes → Err} {baseId : Bytes}
    {initDatas : List (Bytes × Bytes)} {ctx : Context ρ}
    (h : (onEachSub am added call wrap baseId initDatas ctx).1 = .ok ()) :
    ∀ d ∈ initDatas, ∃ r id c, am d.1 = some r ∧ (call r d.2 id c).exit = .ok () := by
  intro d hd
  obtain ⟨bs, c, hloop, -⟩ := bind_eq_ok.mp (Prod.ext h rfl)
  obtain ⟨states, -, -, hstep⟩ := forEach_eq_ok_states hloop
  obtain ⟨j, hj⟩ := mem_iff_getElem?.mp hd
  obtain ⟨b, hbody⟩ := hstep j d hj
  rcases hr : am d.1 with _ | r
  · simp [hr] at hbody
  · rw [hr] at hbody
    have hexec := mapError_eq_ok.mp hbody
    exact ⟨r, _, _, rfl, congrArg Prod.fst hexec⟩

theorem exists_built_of_added (hleaves : ∀ type r, compositeOf type = none →
    m.getAuthenticatorByType type = some r → r.Usable) (n : ℕ) :
    ∀ type config, config.length < n → ∀ r account id ctx, m.getAuthenticatorByType type = some r →
      (r.onAuthenticatorAdded account config id ctx).exit = .ok () → ∃ t : AuthTree ρ, t.Built m type config := by
  induction n with
  | zero =>
    omega
  | succ n ih =>
    intro type config hconfig r account id ctx hr hadded
    rcases hcomposite : compositeOf type with _ | ⟨kind, assignment⟩
    · obtain ⟨inst, hinst⟩ := hleaves type r hcomposite hr account config id ctx hadded
      exact ⟨.leaf ⟨type, config, r, inst⟩, hcomposite, rfl, rfl, hr, hinst⟩
    · obtain rfl := compositeOf_eq_some.mp hcomposite
      cases (m.composite kind assignment).symm.trans hr
      have hsubs : (onSubAuthenticatorsAdded m.json.toCompositeJSON m.getAuthenticatorByType account config id
        ctx).1 = .ok () := hadded
      rw [onSubAuthenticatorsAdded] at hsubs
      rcases hdata : m.json.initDatas config with _ | initDatas
      · simp [hdata] at hsubs
      · rw [hdata] at hsubs
        dsimp only at hsubs
        by_cases htwo : initDatas.length ≤ 1
        · rw [if_pos htwo] at hsubs
          cases hsubs
        · rw [if_neg htwo] at hsubs
          obtain ⟨subs, hbuilt⟩ := exists_allBuilt fun d hd => by
            obtain ⟨r, subId, c, hr, hexit⟩ := onEachSub_eq_ok hsubs d hd
            have hshorter := m.json.config_shorter hdata d hd
            exact ih d.1 d.2 (by omega) r account subId c hr hexit
          exact ⟨.node kind assignment subs, rfl, initDatas, hdata, by omega, hbuilt⟩

end added

/-! ## The keeper -/

mutual

/-- Each composite has at least two sub-authenticators. -/
def AuthTree.AtLeastTwo : AuthTree ρ → Prop
  | .leaf _ => True
  | .node _ _ subs => 2 ≤ subs.length ∧ AuthTree.AllAtLeastTwo subs

def AuthTree.AllAtLeastTwo : List (AuthTree ρ) → Prop
  | [] => True
  | t :: ts => t.AtLeastTwo ∧ AuthTree.AllAtLeastTwo ts

end

theorem AuthTree.allAtLeastTwo_iff (ts : List (AuthTree ρ)) : AuthTree.AllAtLeastTwo ts ↔ ∀ t ∈ ts, t.AtLeastTwo := by
  induction ts with
  | nil => simp [AuthTree.AllAtLeastTwo]
  | cons t ts ih => simp [AuthTree.AllAtLeastTwo, ih]

theorem AuthTree.Built.atLeastTwo {m : Manager ρ} (t : AuthTree ρ) : ∀ type config, t.Built m type config →
    t.AtLeastTwo := by
  induction t using AuthTree.rec_mem with
  | leaf l => exact fun _ _ _ => trivial
  | node kind assignment subs ih =>
    rintro type config ⟨-, initDatas, -, htwo, hsubs⟩
    refine ⟨hsubs.length_eq ▸ htwo, (AuthTree.allAtLeastTwo_iff subs).mpr fun t ht => ?_⟩
    obtain ⟨j, hj⟩ := mem_iff_getElem?.mp ht
    obtain ⟨hlt, -⟩ := List.getElem?_eq_some_iff.mp hj
    rw [hsubs.length_eq] at hlt
    have hd : initDatas[j]? = some initDatas[j] := List.getElem?_eq_getElem _
    exact ih t ht _ _ (hsubs.built hj hd)

section keeper

variable {k : Keeper ρ}

theorem addAuthenticator_row {account type config : Bytes} {ctx left : Context ρ} {id : UInt64}
    (h : k.addAuthenticator account type config ctx = (.ok id, left)) :
    ∃ impl c, k.authenticatorManager type = some impl ∧
      (impl.onAuthenticatorAdded account config (decimal id) c).exit = .ok () ∧
      left.rows.get (k.keyAccountId account id) = some (.authenticator ⟨id, type, config⟩) := by
  unfold Keeper.addAuthenticator at h
  rcases himpl : k.authenticatorManager type with _ | impl
  · simp [himpl] at h
  · rw [himpl] at h
    obtain ⟨id', c, -, h⟩ := bind_eq_ok.mp h
    obtain ⟨_, c₁, hhook, h⟩ := bind_eq_ok.mp h
    obtain ⟨_, c₂, -, h⟩ := bind_eq_ok.mp h
    obtain ⟨_, c₃, hset, h⟩ := bind_eq_ok.mp h
    obtain ⟨rfl, rfl⟩ := pure_eq_ok.mp h
    refine ⟨impl, c, rfl, congrArg Prod.fst (mapError_eq_ok.mp hhook), ?_⟩
    rw [setRow_eq_ok hset, KVStore.get_set_self]

theorem getRow_of_gas {key : Bytes} {ctx : Context ρ}
    (hgas : ((consumeGas (k.readGas key (ctx.rows.get key)) : Proc (Context ρ) Err Unit) ctx).1 = .ok ()) :
    ∃ c, k.get key ctx = (.ok (ctx.rows.get key), c) := by
  refine ⟨((consumeGas (k.readGas key (ctx.rows.get key)) : Proc (Context ρ) Err Unit) ctx).2, ?_⟩
  refine bind_eq_ok.mpr ⟨ctx, ctx, rfl, bind_eq_ok.mpr ⟨(), _, Prod.ext hgas rfl, rfl⟩⟩

theorem getInitializedAuthenticatorForAccount_of_row {account : Bytes} {id : UInt64} {ctx c : Context ρ}
    {data : AccountAuthenticator} {registered : RegisteredAuthenticator ρ} {inst : Authenticator ρ}
    (hrow : k.get (k.keyAccountId account id) ctx = (.ok (some (.authenticator data)), c))
    (hregistered : k.authenticatorManager data.type = some registered)
    (hinst : registered.initializeConfig data.config = .ok (some inst)) :
    k.getInitializedAuthenticatorForAccount account id ctx = (.ok ⟨data.id, some inst⟩, c) := by
  have hdata : k.getSelectedAuthenticatorData account id ctx = (.ok data, c) := by
    rw [Keeper.getSelectedAuthenticatorData, bind_of_ok hrow]
    rfl
  rw [Keeper.getInitializedAuthenticatorForAccount, bind_of_ok hdata, hregistered]
  dsimp only
  rw [hinst]
  rfl

/-- What can be added can be used: the authenticator of a row that was added is the tree of its config. -/
theorem added_authenticator_usable (k : Keeper ρ) (m : ModuleManager ρ)
    (hmanager : k.authenticatorManager = m.getAuthenticatorByType) (account type config : Bytes)
    (ctx left : Context ρ) (id : UInt64) (hadd : k.addAuthenticator account type config ctx = (.ok id, left)) :
    ∃ t : AuthTree ρ, t.Built m.toManager type config ∧ t.AtLeastTwo ∧ ∀ later : Context ρ,
        later.rows.get (k.keyAccountId account id) = left.rows.get (k.keyAccountId account id) →
        ((consumeGas (k.readGas (k.keyAccountId account id) (later.rows.get (k.keyAccountId account id))) :
          Proc (Context ρ) Err Unit) later).1 = .ok () →
        (k.getInitializedAuthenticatorForAccount account id later).1 =
          .ok ⟨id, some (t.authenticator m.json.toCompositeJSON)⟩ := by
  obtain ⟨impl, c, himpl, hhook, hrow⟩ := addAuthenticator_row hadd
  have hleaves : ∀ type r, compositeOf type = none → m.getAuthenticatorByType type = some r → r.Usable := by
    intro type r hnone hr
    rw [m.leaves type hnone] at hr
    exact usable_of_mem_leafTypes hr
  have himpl' : m.getAuthenticatorByType type = some impl := hmanager ▸ himpl
  obtain ⟨t, ht⟩ := exists_built_of_added hleaves (config.length + 1) type config (Nat.lt_succ_self _) impl account
    (decimal id) c himpl' hhook
  refine ⟨t, ht, AuthTree.Built.atLeastTwo t type config ht, fun later hsame hgas => ?_⟩
  obtain ⟨c', hget⟩ := getRow_of_gas hgas
  rw [hsame, hrow] at hget
  rw [getInitializedAuthenticatorForAccount_of_row hget himpl
    (AuthTree.Built.initializeConfig t type config impl ht himpl')]

end keeper

namespace SampleModule

/-- A config is a byte and two keys, or a byte, a key and such a config of any of the two. -/
def initDatas (data : Bytes) : Option (List (Bytes × Bytes)) :=
  let key := (SignatureVerification.type, (data.drop 1).take 33)
  if data.length = 67 then some [key, (SignatureVerification.type, data.drop 34)]
  else if data.length = 101 then some [key, (ascii "AnyOf", data.drop 34)]
  else none

def json : NestedJSON where
  signatures := fun _ => none
  initDatas := initDatas
  config_shorter := by
    intro data subs h sub hsub
    unfold initDatas at h
    split_ifs at h with hlen hlen
    all_goals
      cases h
      simp only [mem_cons, not_mem_nil, or_false] at hsub
      rcases hsub with rfl | rfl
      · simp only [length_take, length_drop]
        omega
      · simp only [length_drop]
        omega
  part_shorter := by
    intro signature parts h
    cases h

def host : Host Unit where
  rawMessage := fun _ => none
  value := fun _ => none
  object := fun _ => none
  cosmwasmInitData := fun _ => none
  zkProofConfig := fun _ => none
  zkProofPayload := fun _ => none
  accAddressFromBech32 := fun _ => none
  newDecFromStr := fun _ => none
  resolve := fun _ => none
  unmarshal := fun _ => none
  marshalInterfaceJSON := fun _ => none
  marshal := fun _ => none
  contractSudo := fun _ _ => .ofProc (pure ())
  sigVerifyCostSecp256k1 := pure 0
  verifySignature := fun _ _ _ => false
  isReCheckTx := fun _ => false
  pathAVerifier := none

def manager : ModuleManager Unit := .of json host

def keeper : Keeper Unit :=
  { circuitBreakerGovernor := []
    authenticatorManager := manager.getAuthenticatorByType
    accString := id
    accAddressFromBech32 := some
    readGas := fun _ _ => 0
    writeGas := fun _ _ => 0 }

def config : Bytes := List.replicate 101 7

def added : Context Unit := (keeper.addAuthenticator [1] (ascii "AllOf") config emptyContext).2

end SampleModule

/-- All of a key and any of two keys. -/
theorem two_keys_usable :
    ∃ t : AuthTree Unit, t.AtLeastTwo ∧
      (SampleModule.keeper.getInitializedAuthenticatorForAccount [1] 1 SampleModule.added).1 =
        .ok ⟨1, some (t.authenticator SampleModule.json.toCompositeJSON)⟩ := by
  have hadd : (SampleModule.keeper.addAuthenticator [1] (ascii "AllOf") SampleModule.config emptyContext).1 =
      .ok 1 := by decide +kernel
  obtain ⟨t, -, htwo, husable⟩ := added_authenticator_usable SampleModule.keeper SampleModule.manager rfl [1]
    (ascii "AllOf") SampleModule.config emptyContext SampleModule.added 1 (Prod.ext hadd rfl)
  exact ⟨t, htwo, husable SampleModule.added rfl (by decide +kernel)⟩

end SmartAccount
