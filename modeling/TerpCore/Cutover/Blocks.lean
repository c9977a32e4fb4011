/-
  The blocks between v6.3 and v6.4.

  The plan and the heights of finished upgrades stand beside the store of the upgrade module.
-/
import TerpCore.Cutover.Stores
import TerpCore.Lib.Run

namespace Cutover

open Lib Outcome List

/-! ## State -/

structure Plan where
  name : Bytes
  height : Int64
  info : Bytes
  deriving DecidableEq

structure State where
  /-- the multistore by name -/
  store : Bytes → KVStore Bytes
  plan : Option Plan
  /-- `GetDoneHeight`, which is zero for an upgrade that was not applied -/
  doneHeight : Bytes → Int64

def State.write (s : State) (name : Bytes) (kv : KVStore Bytes) : State :=
  { s with store := fun n => if n = name then kv else s.store n }

inductive Err where
  | refusing (storeName : Bytes)
  | missing (src dst : Bytes)
  | arm (e : Err)
  | invalidPlan
  | past
  | done (name : Bytes)
  /-- the binary has a handler for a plan that is not due yet -/
  | early
  /-- an error of another module -/
  | outside
  deriving DecidableEq

def Err.text : Err → Bytes
  | refusing storeName => ascii "refusing to rehash IBC-facing store " ++ storeName
  | missing src dst => ascii "missing dual-store keys " ++ src ++ ascii " -> " ++ dst
  | arm e => ascii "arm v6.4: " ++ e.text
  | invalidPlan => ascii "invalid plan"
  | past => ascii "upgrade cannot be scheduled in the past"
  | done name => ascii "upgrade with name " ++ name ++ ascii " has already been completed"
  | early => ascii "BINARY UPDATED BEFORE TRIGGER!"
  | outside => []

/-! ## The upgrade module -/

def Plan.shouldExecute (p : Plan) (height : Int64) : Bool := 0 < p.height && p.height ≤ height

def scheduleUpgrade (s : State) (height : Int64) (plan : Plan) : Outcome Err State := do
  require (plan.name ≠ [] && 0 < plan.height) .invalidPlan
  require (height ≤ plan.height) .past
  require (s.doneHeight plan.name = 0) (.done plan.name)
  return { s with plan := some plan }

/-- What `ApplyUpgrade` does after the handler. -/
def State.applied (s : State) (plan : Plan) (height : Int64) : State :=
  { s with plan := none, doneHeight := fun n => if n = plan.name then height else s.doneHeight n }

/-! ## v6.3 -/

def upgradeName : Bytes := ascii "v6.3"
def nextUpgradeName : Bytes := ascii "v6.4"
def nextUpgradeGap : Int64 := 2

def nextUpgradeInfo : Bytes :=
  ascii "\x7b\"binaries\":\x7b\"linux/amd64\":\"https://s3.terp.network/releases/terp-core/v6.4.0/terpd-6.4.0-linux-amd64.tar.gz?checksum=sha256:33e11632d368e455ab9a906fe161445a77f7127415ebb6cc80bad2d2e05e3196\",\"linux/arm64\":\"https://s3.terp.network/releases/terp-core/v6.4.0/terpd-6.4.0-linux-arm64.tar.gz?checksum=sha256:4d1298cfa6d3dab824381e60227f07f6e5c0a054a5be42f970e40de4678c9a36\"\x7d\x7d"

section upgrade

variable (l : Layout)

/-- The body of the handler's loop. -/
def copyPair (s : State) (p : Bytes × Bytes) : Outcome Err State :=
  if isIBCStore p.1 then .error (.refusing p.1)
  else match l.getKey p.1, l.getKey p.2 with
    | some srcKey, some dstKey => .ok (s.write dstKey (copyKVStore (s.store srcKey) (s.store dstKey)).1)
    | _, _ => .error (.missing p.1 p.2)

def copyStores (s : State) : Outcome Err State :=
  forEach (fun _ => copyPair l) 0 s dualStorePairs

/-- The key of a module's version in the upgrade store. -/
def moduleVersionKey (module : Bytes) : Bytes := 0x02 :: module

/-- The handler; `runMigrations` is the module manager's. -/
def createUpgradeHandler (runMigrations : State → Outcome Err State) (s : State) : Outcome Err State := do
  let s ← runMigrations s
  let s := match l.getKey (ascii "upgrade") with
    | some upgradeKey =>
      s.write upgradeKey ((s.store upgradeKey).delete (moduleVersionKey (ascii "ibchooks")))
    | none => s
  copyStores l s

/-- The body of the loop of `SyncDestFromLive`, which passes over a store that is not mounted. -/
def syncPair (s : State) (p : Bytes × Bytes) : Outcome Err State :=
  if isIBCStore p.1 then .error (.refusing p.1)
  else match l.getKey p.1, l.getKey p.2 with
    | some srcKey, some dstKey => .ok (s.write dstKey (syncKVStore (s.store srcKey) (s.store dstKey)).1)
    | _, _ => .ok s

def syncDestFromLive (s : State) : Outcome Err State :=
  forEach (fun _ => syncPair l) 0 s dualStorePairs

def syncDestWhileArmed (s : State) : Outcome Err State :=
  match s.plan with
  | none => .ok s
  | some plan => if plan.name ≠ nextUpgradeName then .ok s else syncDestFromLive l s

def maybeArmNext (s : State) (height : Int64) : Outcome Err State :=
  if s.doneHeight upgradeName ≠ height then .ok s
  else match s.plan with
    | some _ => .ok s
    | none =>
      match scheduleUpgrade s height ⟨nextUpgradeName, height + nextUpgradeGap, nextUpgradeInfo⟩ with
      | .ok s => .ok s
      | .error e => .error (.arm e)
      | .panicked => .panicked

def armHasherNext (s : State) (height : Int64) : Outcome Err State := do
  let s ← maybeArmNext s height
  syncDestWhileArmed l s

end upgrade

/-! ## Blocks -/

/-- A block: what its vote extensions and the contracts they call write, what its transactions and its begin do, and
what the modules do at its end.  All may write any store; the latter two may change the plan, and one that fails ends
the block. -/
structure Block where
  height : Int64
  processInjectedVoteExtension : (Bytes → KVStore Bytes) → Bytes → KVStore Bytes
  deliver : State → Outcome Err State
  endBlock : State → Outcome Err State

/-- A node that runs the v6.3 binary, with the code of the upgrades that are not modelled. -/
structure Node where
  runMigrations : State → Outcome Err State
  v61 : State → Outcome Err State
  v62 : State → Outcome Err State

namespace Node

variable (n : Node)

def handler (name : Bytes) : Option (State → Outcome Err State) :=
  if name = ascii "v6.1" then some n.v61
  else if name = ascii "v6.2" then some n.v62
  else if name = upgradeName then some (createUpgradeHandler v63 n.runMigrations)
  else none

/-- The upgrade module's `PreBlocker`; a plan that is due and has no handler stops the node. -/
def preBlock (s : State) (height : Int64) : Outcome Err State :=
  match s.plan with
  | none => .ok s
  | some plan =>
    if plan.shouldExecute height then
      match n.handler plan.name with
      | none => .panicked
      | some h => do
        let s ← h s
        return s.applied plan height
    else if (n.handler plan.name).isSome then .error .early
    else .ok s

/-- The vote extensions are processed before the `PreBlocker` of the upgrade module runs. -/
def preBlocker (s : State) (b : Block) : Outcome Err State :=
  n.preBlock { s with store := b.processInjectedVoteExtension s.store } b.height

def finalizeBlock (s : State) (b : Block) : Outcome Err State := do
  let s ← n.preBlocker s b
  let s ← b.deliver s
  let s ← b.endBlock s
  armHasherNext v63 s b.height

/-- The committed state; a block that fails is not committed. -/
def step (s : State) (b : Block) : State := (n.finalizeBlock s b).orElse s

end Node

/-! ## v6.4 -/

/-- What the store loader of v6.4 leaves: the live stores are deleted. -/
def loadV64 (s : State) (name : Bytes) : KVStore Bytes :=
  if migratableStores.contains name then .empty else s.store name

/-- What the keeper of a store key reads. -/
def Layout.reads (l : Layout) (store : Bytes → KVStore Bytes) (storeKey : Bytes) : Option (KVStore Bytes) :=
  (l.keeperKey storeKey).map store

/-! ## One copy -/

theorem pairs_mounted : ∀ p ∈ dualStorePairs, isIBCStore p.1 = false ∧ isIBCStore p.2 = false ∧
    v63.getKey p.1 = some p.1 ∧ v63.getKey p.2 = some p.2 := by
  decide +kernel

theorem dests_nodup : (dualStorePairs.map Prod.snd).Nodup := by
  decide +kernel

theorem dest_ne_src : ∀ p ∈ dualStorePairs, ∀ q ∈ dualStorePairs, p.2 ≠ q.1 := by
  decide +kernel

variable {p : Bytes × Bytes} {s t : State}

theorem copyPair_eq (s : State) (hp : p ∈ dualStorePairs) : copyPair v63 s p = .ok (s.write p.2 (s.store p.1)) := by
  obtain ⟨hibc, -, hsrc, hdst⟩ := pairs_mounted p hp
  rw [copyPair, if_neg (by rw [hibc]; exact Bool.false_ne_true), hsrc, hdst]
  simp only [copyKVStore, syncKVStore_eq]

theorem syncPair_eq (s : State) (hp : p ∈ dualStorePairs) : syncPair v63 s p = .ok (s.write p.2 (s.store p.1)) := by
  obtain ⟨hibc, -, hsrc, hdst⟩ := pairs_mounted p hp
  rw [syncPair, if_neg (by rw [hibc]; exact Bool.false_ne_true), hsrc, hdst]
  simp only [syncKVStore_eq]

/-- What the copies do: each of the stores has its copy, and nothing else is written. -/
structure Copied (s t : State) : Prop where
  dest : ∀ p ∈ dualStorePairs, t.store p.2 = s.store p.1
  frame : ∀ name, (∀ p ∈ dualStorePairs, name ≠ p.2) → t.store name = s.store name
  plan : t.plan = s.plan
  doneHeight : t.doneHeight = s.doneHeight

theorem Copied.live (h : Copied s t) (hp : p ∈ dualStorePairs) : t.store p.1 = s.store p.1 :=
  h.frame p.1 fun q hq => Ne.symm (dest_ne_src q hq p hp)

theorem copied_of_loop {f : ℕ → State → Bytes × Bytes → Outcome Err State}
    (hf : ∀ i s, ∀ p ∈ dualStorePairs, f i s p = .ok (s.write p.2 (s.store p.1))) (s : State) :
    ∃ t, forEach f 0 s dualStorePairs = .ok t ∧ Copied s t := by
  -- the pairs that are left have not been written to, and the others have their copies
  let I : State → List (Bytes × Bytes) → Prop := fun t ps =>
    (∃ done, dualStorePairs = done ++ ps ∧ ∀ p ∈ done, t.store p.2 = s.store p.1) ∧
      (∀ name, (∀ p ∈ dualStorePairs, name ≠ p.2) → t.store name = s.store name) ∧
      t.plan = s.plan ∧ t.doneHeight = s.doneHeight
  have hbody : ∀ i t p ps, I t (p :: ps) → ∃ t', f i t p = .ok t' ∧ I t' ps := by
    rintro i t p ps ⟨⟨done, hsplit, hdone⟩, hframe, hplan, hheight⟩
    have hp : p ∈ dualStorePairs := by rw [hsplit]; simp
    have hsrc : t.store p.1 = s.store p.1 := hframe p.1 fun q hq => Ne.symm (dest_ne_src q hq p hp)
    refine ⟨_, hf i t p hp, ⟨done ++ [p], by simp [hsplit], ?_⟩, ?_, hplan, hheight⟩
    · intro q hq
      rcases mem_append.mp hq with hq | hq
      · have hne : q.2 ≠ p.2 := by
          have hnodup := dests_nodup
          rw [hsplit, map_append, nodup_append] at hnodup
          exact hnodup.2.2 _ (mem_map_of_mem hq) _ mem_cons_self
        change (if q.2 = p.2 then _ else t.store q.2) = _
        rw [if_neg hne, hdone q hq]
      · obtain rfl := mem_singleton.mp hq
        change (if q.2 = q.2 then t.store q.1 else _) = _
        rw [if_pos rfl, hsrc]
    · intro name hname
      change (if name = p.2 then _ else t.store name) = _
      rw [if_neg (hname p hp), hframe name hname]
  obtain ⟨t, hloop, ⟨done, hsplit, hdone⟩, hframe, hplan, hheight⟩ :=
    forEach_returns hbody dualStorePairs 0 s
      ⟨⟨[], rfl, by simp⟩, fun _ _ => rfl, rfl, rfl⟩
  rw [append_nil] at hsplit
  exact ⟨t, hloop, ⟨hsplit ▸ hdone, hframe, hplan, hheight⟩⟩

theorem copyStores_returns (s : State) : ∃ t, copyStores v63 s = .ok t ∧ Copied s t :=
  copied_of_loop (fun _ s _ hp => copyPair_eq s hp) s

theorem syncDestFromLive_returns (s : State) : ∃ t, syncDestFromLive v63 s = .ok t ∧ Copied s t :=
  copied_of_loop (fun _ s _ hp => syncPair_eq s hp) s

/-! ## The end of a block -/

def State.armed (s : State) : Prop := ∃ plan, s.plan = some plan ∧ plan.name = nextUpgradeName

/-- The copies are those of the live stores. -/
def State.Synced (s : State) : Prop := ∀ p ∈ dualStorePairs, s.store p.2 = s.store p.1

theorem Copied.synced (h : Copied s t) : t.Synced := fun p hp => by
  rw [h.dest p hp, h.live hp]

theorem syncDestWhileArmed_synced (h : syncDestWhileArmed v63 s = .ok t) (harmed : t.armed) : t.Synced := by
  obtain ⟨u, hsync, hcopied⟩ := syncDestFromLive_returns s
  unfold syncDestWhileArmed at h
  rcases hplan : s.plan with _ | plan
  · rw [hplan] at h
    cases h
    obtain ⟨plan, hsome, -⟩ := harmed
    simp [hplan] at hsome
  · rw [hplan] at h
    dsimp only at h
    split_ifs at h with hname
    · cases h
      obtain ⟨plan', hsome, hname'⟩ := harmed
      rw [hplan] at hsome
      exact absurd (Option.some.inj hsome ▸ hname') hname
    · rw [hsync] at h
      exact ok.inj h ▸ hcopied.synced

theorem finalizeBlock_synced {n : Node} {b : Block} (h : n.finalizeBlock s b = .ok t)
    (harmed : t.armed) : t.Synced := by
  obtain ⟨s₁, -, h⟩ := bind_eq_ok.mp h
  obtain ⟨s₂, -, h⟩ := bind_eq_ok.mp h
  obtain ⟨s₃, -, h⟩ := bind_eq_ok.mp h
  obtain ⟨s₄, -, h⟩ := bind_eq_ok.mp h
  exact syncDestWhileArmed_synced h harmed

theorem step_synced (n : Node) (hs : s.armed → s.Synced) (b : Block) : (n.step s b).armed → (n.step s b).Synced :=
  orElse_elim hs fun _ h => finalizeBlock_synced h

/-! ## The change to v6.4 -/

/-- On v6.4 a keeper has the copy of its store, if there is one, and else its old store, which is not deleted. -/
theorem keeperKeys : ∀ storeKey ∈ keeperStoreKeys, v63.keeperKey storeKey = some storeKey ∧
    (dualStorePairs.contains (storeKey, destName storeKey) = true ∧
        v64.keeperKey storeKey = some (destName storeKey) ∧
        migratableStores.contains (destName storeKey) = false ∨
      v64.keeperKey storeKey = some storeKey ∧ migratableStores.contains storeKey = false) := by
  decide +kernel

theorem reads_v64 (h : s.Synced) {storeKey : Bytes} (hkey : storeKey ∈ keeperStoreKeys) :
    ∃ live, v63.reads s.store storeKey = some live ∧ v64.reads (loadV64 s) storeKey = some live := by
  obtain ⟨hold, ⟨hpair, hnew, hkept⟩ | ⟨hnew, hkept⟩⟩ := keeperKeys storeKey hkey
  · have hdest := h (storeKey, destName storeKey) (contains_iff_mem.mp hpair)
    refine ⟨s.store storeKey, by rw [Layout.reads, hold]; rfl, ?_⟩
    rw [Layout.reads, hnew, Option.map_some, loadV64, hkept, if_neg Bool.false_ne_true, hdest]
  · refine ⟨s.store storeKey, by rw [Layout.reads, hold]; rfl, ?_⟩
    rw [Layout.reads, hnew, Option.map_some, loadV64, hkept, if_neg Bool.false_ne_true]

/-- The v6.3 binary does not go past the height of the plan. -/
theorem step_of_due (n : Node) {plan : Plan} (hplan : s.plan = some plan) (hname : plan.name = nextUpgradeName)
    {b : Block} (hdue : plan.shouldExecute b.height = true) :
    n.step s b = s := by
  have hhandler : n.handler plan.name = none := by
    rw [hname]
    rfl
  have hpre : n.preBlocker s b = .panicked := by
    unfold Node.preBlocker Node.preBlock
    simp only [hplan, hdue, if_true, hhandler]
  rw [Node.step, Node.finalizeBlock, hpre]
  rfl

/-- The copies leave alone whatever faces IBC. -/
def SparesIBC (f : State → Outcome Err State) : Prop :=
  ∀ s t, f s = .ok t → ∀ name, isIBCStore name = true → t.store name = s.store name

theorem sparesIBC_of_copied {f : State → Outcome Err State} (hf : ∀ s, ∃ t, f s = .ok t ∧ Copied s t) :
    SparesIBC f := by
  intro s t heq name hname
  obtain ⟨t', heq', hcopied⟩ := hf s
  obtain rfl : t' = t := ok.inj (heq'.symm.trans heq)
  refine hcopied.frame name ?_
  rintro p hp rfl
  simp [(pairs_mounted p hp).2.1] at hname

/-- **Nothing is lost**: from the height of v6.3, over any blocks, whenever a block is committed with v6.4 pending the
copies equal the live stores, and the keepers of v6.4 read what those of v6.3 read.  At the plan's height v6.3 stops.
No copy writes to a store that faces IBC. -/
theorem cutover_loses_nothing (n : Node) (s : State) (plan : Plan) (hplan : s.plan = some plan)
    (hname : plan.name = upgradeName) (blocks : List Block) :
    let t := run n.step s blocks
    (t.armed → t.Synced ∧
      (∀ storeKey ∈ keeperStoreKeys, ∃ live, v63.reads t.store storeKey = some live ∧
        v64.reads (loadV64 t) storeKey = some live) ∧
      ∀ b : Block, (∃ next, t.plan = some next ∧ next.shouldExecute b.height = true) → n.step t b = t) ∧
    SparesIBC (copyStores v63) ∧ SparesIBC (syncDestFromLive v63) := by
  intro t
  have hstart : s.armed → s.Synced := by
    rintro ⟨plan', hplan', hname'⟩
    obtain rfl : plan = plan' := Option.some.inj (hplan.symm.trans hplan')
    rw [hname] at hname'
    exact absurd hname' (by decide)
  have hinv : t.armed → t.Synced := run_preserves (I := fun t : State => t.armed → t.Synced)
    (fun t b ht => step_synced n ht b) s blocks hstart
  refine ⟨fun harmed => ⟨hinv harmed, fun _ => reads_v64 (hinv harmed), ?_⟩,
    sparesIBC_of_copied copyStores_returns, sparesIBC_of_copied syncDestFromLive_returns⟩
  rintro b ⟨next, hnext, hdue⟩
  obtain ⟨next', hnext', hname'⟩ := harmed
  obtain rfl : next = next' := Option.some.inj (hnext.symm.trans hnext')
  exact step_of_due n hnext hname' hdue

namespace Sample

def bank : Bytes := ascii "bank"

def hashmerchant : Bytes := ascii "hashmerchant"

def node : Node := ⟨.ok, .ok, .ok⟩

/-- Writes a row of a store. -/
def set (name key value : Bytes) (s : State) : State := s.write name ((s.store name).set key value)

/-- The stores with a row of hashmerchant's. -/
def root (key : Bytes) (store : Bytes → KVStore Bytes) (name : Bytes) : KVStore Bytes :=
  if name = hashmerchant then (store name).set key key else store name

/-- The state at the height of v6.3.  In the two blocks before v6.4 the modules write to the bank, and something gets
into its copy. -/
def start : State :=
  set bank [1] [1] ⟨fun _ => .empty, some ⟨upgradeName, 5, []⟩, fun _ => 0⟩

def applyBlock : Block where
  height := 5
  processInjectedVoteExtension := root [7]
  deliver s := .ok (set bank [2] [2] s)
  endBlock s := .ok (s.write bank ((s.store bank).delete [1]))

def gapBlock : Block where
  height := 6
  processInjectedVoteExtension := root [8]
  deliver s := .ok (set (destName bank) [9] [9] s)
  endBlock s := .ok (set bank [3] [3] s)

end Sample

open Sample in
/-- The bank and hashmerchant of v6.4 have what both blocks wrote. -/
theorem gap_block_copied :
    let t := run node.step start [applyBlock, gapBlock]
    t.plan.map Plan.height = some 7 ∧ t.armed ∧ t.Synced ∧
      (v64.reads (loadV64 t) bank).map (fun kv => kv.iterator []) = some [([2], [2]), ([3], [3])] ∧
      (v64.reads (loadV64 t) hashmerchant).map (fun kv => kv.iterator []) = some [([7], [7]), ([8], [8])] := by
  intro t
  have hheight : t.plan.map Plan.height = some 7 := by decide +kernel
  have hname : t.plan.map Plan.name = some nextUpgradeName := by decide +kernel
  have harmed : t.armed := by
    obtain ⟨plan, hplan, hplanName⟩ := Option.map_eq_some_iff.mp hname
    exact ⟨plan, hplan, hplanName⟩
  have hsynced := ((cutover_loses_nothing node start ⟨upgradeName, 5, []⟩ rfl rfl
    [applyBlock, gapBlock]).1 harmed).1
  exact ⟨hheight, harmed, hsynced, by decide +kernel, by decide +kernel⟩

end Cutover
