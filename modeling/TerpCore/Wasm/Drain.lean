/-
  The bounded garbage collection comes to an end.
-/
import TerpCore.Wasm.Coverage
import TerpCore.Wasm.Export

namespace Wasm

open Lib List Tables FormedOn

variable {ν β : Type} {k : Keeper ν β}

/-! ## The work of a collection -/

/-- The creators that a collection works on: those with an expiry entry that is due, and the marked ones. -/
def gcCreators (s : Store) (now : UInt64) : List AccAddress :=
  (expiredHits s now).map Prod.snd ++ pendingGC s

def Keeper.circuitsOf (k : Keeper ν β) (s : Store) (creators : List AccAddress) : List UInt64 :=
  ((circuitInfos s).filter fun r =>
    (k.accAddressFromBech32 r.2.creator).any creators.contains).map Prod.fst

/-- What there is to do as long as the creators are these. -/
def Keeper.workOn (k : Keeper ν β) (creators : List AccAddress) (s : Store) (now : UInt64) : ℕ :=
  (expiredHits s now).length + (pendingGC s).length + (k.circuitsOf s creators).length

/-- Expiry entries that are due, markers, and circuits of their creators. -/
def Keeper.gcWork (k : Keeper ν β) (s : Store) (now : UInt64) : ℕ := k.workOn (gcCreators s now) s now

/-! ## The invariant -/

/-- Every expiry entry is that of its owner's row, and every circuit is in the index of its creator. -/
structure Filed (k : Keeper ν β) (s : Store) : Prop where
  formed : Formed s
  indexed : Indexed k s
  expiry : ∀ {u : UInt64} {addr : AccAddress}, (row s (.expiry u addr)).isSome →
    row s (.depositee addr) = some (.raw (be64 u))
  listed : ∀ {id : UInt64} {info : CircuitInfo}, row s (.circuit id) = some (.circuitInfo info) →
    ∃ addr, k.accAddressFromBech32 info.creator = some addr ∧ (row s (.creator addr id)).isSome

namespace Filed

theorem deposits {s t : Store} (h : Filed k s) (hformed : Formed t)
    (hkeep : ∀ key : Key, key.part = .circuits → row t key = row s key)
    (hunpaid : ∀ addr, (row t (.gc addr)).isSome → row t (.depositee addr) = none)
    (hexpiry : ∀ u addr, (row t (.expiry u addr)).isSome →
      row t (.depositee addr) = some (.raw (be64 u))) : Filed k t where
  formed := hformed
  indexed :=
    { unpaid := fun {addr} => hunpaid addr
      circuit := fun {addr id} hindex => by
        rw [hkeep (.creator addr id) rfl] at hindex
        rw [hkeep (.circuit id) rfl]
        exact h.indexed.circuit hindex }
  expiry {u addr} := hexpiry u addr
  listed {id info} hinfo := by
    rw [hkeep (.circuit id) rfl] at hinfo
    obtain ⟨addr, hcreator, hindex⟩ := h.listed hinfo
    exact ⟨addr, hcreator, by rwa [hkeep (.creator addr id) rfl]⟩

section

variable {s : State ν β} {addr : AccAddress}

variable (h : Filed k s.store)

include h

theorem drop_gc (addr : AccAddress) : Filed k (drop s.store (.gc addr)) := by
  refine h.deposits (FormedOn.drop h.formed _) ?_ ?_ ?_
  · rintro key hkey
    exact row_drop_of_ne (by rintro rfl; cases hkey)
  · intro addr' hmarked
    rw [row_drop] at hmarked
    split_ifs at hmarked
    · cases hmarked
    · rw [row_drop_of_ne (by simp)]
      exact h.indexed.unpaid hmarked
  · intro u addr' hentry
    rw [row_drop_of_ne (by simp)] at hentry ⊢
    exact h.expiry hentry

theorem put_gc (hunpaid : row s.store (.depositee addr) = none) : Filed k (put s.store (.gc addr) (.raw [1])) := by
  refine h.deposits (FormedOn.put h.formed trivial) ?_ ?_ ?_
  · rintro key hkey
    exact row_put_of_ne (by rintro rfl; cases hkey)
  · intro addr' hmarked
    rw [row_put_of_ne (by simp)]
    by_cases haddr : addr' = addr
    · rw [haddr, hunpaid]
    · rw [row_put_of_ne (by simpa using Ne.symm haddr)] at hmarked
      exact h.indexed.unpaid hmarked
  · intro u addr' hentry
    rw [row_put_of_ne (by simp)] at hentry ⊢
    exact h.expiry hentry

theorem drop_expiry (u : UInt64) (addr : AccAddress) : Filed k (drop s.store (.expiry u addr)) := by
  refine h.deposits (FormedOn.drop h.formed _) ?_ ?_ ?_
  · rintro key hkey
    exact row_drop_of_ne (by rintro rfl; cases hkey)
  · intro addr' hmarked
    rw [row_drop_of_ne (by simp)] at hmarked ⊢
    exact h.indexed.unpaid hmarked
  · intro u' addr' hentry
    rw [row_drop] at hentry
    split_ifs at hentry
    · cases hentry
    · rw [row_drop_of_ne (by simp)]
      exact h.expiry hentry

theorem lapse {u : UInt64} (hpaid : circuitDepositPaidUntil s.store addr = some u) :
    Filed k (s.lapse u addr).store := by
  refine h.deposits (lapse_formed h.formed u addr) ?_ ?_ ?_
  · rintro key hkey
    rw [row_lapse, if_neg]
    rintro (rfl | rfl) <;> cases hkey
  · intro addr' hmarked
    rw [row_lapse_depositee]
    split_ifs
    · rfl
    · exact h.indexed.unpaid (by simpa [row_lapse] using hmarked)
  · intro u' addr' hentry
    rw [row_lapse_expiry] at hentry
    split_ifs at hentry with heq
    · cases hentry
    · have hrow := h.expiry hentry
      have hne : addr' ≠ addr := by
        rintro rfl
        rw [circuitDepositPaidUntil_be64 hrow] at hpaid
        exact heq ⟨Option.some.inj hpaid, rfl⟩
      rw [row_lapse_depositee, if_neg hne, hrow]

end

theorem storeCircuit {n : ℕ} {s s' : State ν β} {blockTime : Int64} {creator : AccAddress}
    {paramID : UInt64} {vkBody : Bytes} {access : Option AccessConfig} {authZ : AuthorizationPolicy}
    {id : UInt64} (h : Filed k s.store) (hs : Numbered n s.store)
    (hread : k.accAddressFromBech32 (k.bech32 creator) = some creator)
    (heq : k.storeCircuit s blockTime creator paramID vkBody access authZ = .ok (id, s')) :
    Filed k s'.store := by
  have htouches := storeCircuit_touches heq
  have hkeep : ∀ key : Key, key.part = .deposits → row s'.store key = row s.store key := fun key hkey =>
    htouches.row_eq (by simp [hkey, -Key.part])
  refine ⟨htouches.formedOn h.formed, storeCircuit_indexed hs hread h.indexed heq, ?_, ?_⟩
  · intro u addr hentry
    rw [hkeep (.expiry u addr) rfl] at hentry
    rw [hkeep (.depositee addr) rfl]
    exact h.expiry hentry
  · intro id' info' hinfo'
    obtain ⟨params, body, info, _, _, _, -, -, -, -, -, -, hcreator, -, -, hstore⟩ := storeCircuit_eq_ok heq
    simp only [hstore, row_put] at hinfo' ⊢
    by_cases hid : id = id'
    · subst hid
      obtain rfl : info = info' := by simpa using hinfo'
      exact ⟨creator, hcreator ▸ hread, by simp⟩
    · have hold : row s.store (.circuit id') = some (.circuitInfo info') := by simpa [hid] using hinfo'
      obtain ⟨addr, haddr, hindex⟩ := h.listed hold
      exact ⟨addr, haddr, by simpa [hid] using hindex⟩

theorem payCircuitDeposit {s s' : State ν β} {blockTime : Int64} {payer : AccAddress} {years : UInt32}
    (h : Filed k s.store) (heq : k.payCircuitDeposit s blockTime payer years = .ok s') :
    Filed k s'.store := by
  have htouches := payCircuitDeposit_touches heq
  refine h.deposits (htouches.formedOn h.formed) (fun key hkey => htouches.row_eq (by simp [hkey, -Key.part]))
    (fun addr hmarked => (payCircuitDeposit_indexed h.indexed heq).unpaid hmarked) ?_
  intro u addr hentry
  obtain ⟨-, paidUntil, t, ht, hstore⟩ := payCircuitDeposit_eq_ok heq
  by_cases hpayer : addr = payer
  · subst hpayer
    by_cases hu : paidUntil = u
    · subst hu
      simp [hstore, row_put, row_drop]
    · -- an older entry would be the one that the row names, and that one was dropped
      have hold : (row t (.expiry u addr)).isSome := by
        simpa [hstore, row_put, row_drop, hu] using hentry
      have hsub : (row s.store (.expiry u addr)).isSome := by
        rcases ht with ⟨rfl, -⟩ | ⟨old, rfl, -⟩
        · exact hold
        · rw [row_drop] at hold
          split_ifs at hold
          · cases hold
          · exact hold
      have hpaid := circuitDepositPaidUntil_be64 (h.expiry hsub)
      rcases ht with ⟨-, hnone⟩ | ⟨old, rfl, hsome⟩
      · simp [hpaid] at hnone
      · rw [hpaid] at hsome
        simp [Option.some.inj hsome, row_drop_self] at hold
  · have hkeep : row t (.expiry u addr) = row s.store (.expiry u addr) := by
      rcases ht with ⟨rfl, -⟩ | ⟨old, rfl, -⟩
      · rfl
      · exact row_drop_of_ne (by simpa using fun _ => Ne.symm hpayer)
    have hentry' : (row s.store (.expiry u addr)).isSome := by
      simpa [hstore, row_put, row_drop, Ne.symm hpayer, hkeep] using hentry
    rw [((payCircuitDeposit_rows heq).2.2 addr hpayer).2]
    exact h.expiry hentry'

section

variable {s : State ν β} {addr : AccAddress}

theorem pruneCircuit (h : Filed k s.store) {id : UInt64} (hindex : (row s.store (.creator addr id)).isSome) :
    Filed k (k.pruneCircuit addr s id).store := by
  obtain ⟨hindexed, hgone⟩ := h.indexed.pruneCircuit hindex
  have hkeep : ∀ key : Key, ¬ key.ofCircuit id →
      row (k.pruneCircuit addr s id).store key = row s.store key := fun key => row_pruneCircuit addr s
  refine ⟨(pruneCircuit_touches k addr s id).formedOn h.formed, hindexed, ?_, ?_⟩
  · intro u addr' hentry
    rw [hkeep _ (by simp)] at hentry ⊢
    exact h.expiry hentry
  · intro id' info hinfo
    have hne : id' ≠ id := by
      rintro rfl
      simp [hgone] at hinfo
    rw [hkeep _ (by simpa using hne)] at hinfo
    obtain ⟨addr', hcreator, hindex'⟩ := h.listed hinfo
    exact ⟨addr', hcreator, by rwa [hkeep _ (by simpa using hne)]⟩

theorem sweep (h : Filed k s.store) (hunpaid : row s.store (.depositee addr) = none) (max : ℕ) :
    Filed k (k.pruneAndMark s addr max).1.store := by
  refine (pruneAndMark_rule (I := fun t => Filed k t.store ∧ row t.store (.depositee addr) = none) h.formed
    ?_ ?_ ?_ max ⟨h, hunpaid⟩).1
  · rintro t id hindex ⟨ht, hunpaid⟩
    exact ⟨ht.pruneCircuit hindex, (row_pruneCircuit addr t (by simp)).trans hunpaid⟩
  · rintro t ⟨ht, hunpaid⟩
    exact ⟨ht.put_gc hunpaid, (row_put_of_ne (by simp)).trans hunpaid⟩
  · rintro t - ⟨ht, hunpaid⟩
    exact ⟨ht.drop_gc addr, (row_drop_of_ne (by simp)).trans hunpaid⟩

theorem prune {s' : State ν β} {blockTime : Int64} (h : Filed k s.store)
    (heq : k.pruneExpiredCircuitDeposits s blockTime = .ok s') : Filed k s'.store := by
  refine prune_unpaid_rule (I := fun t => Filed k t.store) (fun _ ht => ht.formed) (fun _ => h.indexed.unpaid)
    ?_ ?_ ⟨?_, ?_⟩ heq h
  · intro t addr max _ hrow ht
    exact ht.sweep hrow max
  · intro t u addr ht
    exact ht.drop_expiry u addr
  · intro t u addr hdue _ ht
    exact (ht.lapse (isDue_eq_true hdue).1).drop_gc addr
  · intro t u addr max hdue _ ht
    exact (ht.lapse (isDue_eq_true hdue).1).sweep (by simp [row_lapse]) max

end

end Filed

theorem Filed.other {s s' : State ν β} {op : Op} (h : Filed k s.store) (heq : k.exec s op = .ok s')
    (hparts : op.parts.Disjoint [.deposits, .circuits]) : Filed k s'.store := by
  have hkeep : ∀ key : Key, key.part ∈ [Part.deposits, .circuits] → row s'.store key = row s.store key :=
    fun key => (exec_touches h.formed heq).kept hparts
  refine h.deposits (exec_formed h.formed heq) (fun key hkey => hkeep key (by simp [hkey, -Key.part])) ?_ ?_
  · intro addr hmarked
    rw [hkeep _ (by simp)] at hmarked ⊢
    exact h.indexed.unpaid hmarked
  · intro u addr hentry
    rw [hkeep _ (by simp)] at hentry ⊢
    exact h.expiry hentry

section runs

theorem exec_filed {n : ℕ} {s s' : State ν β} {op : Op} (hn : Numbered n s.store) (hlt : n + 2 < 2 ^ 64)
    (hread : k.Reads op) (h : Filed k s.store) (heq : k.exec s op = .ok s') : Filed k s'.store := by
  cases op with
  | storeCircuit =>
    obtain ⟨id, heq⟩ := resultState_eq_ok heq
    exact h.storeCircuit hn (hread _ rfl) heq
  | storeFullCircuit blockTime creator hasAuth paramBytes vkBody authZ =>
    obtain ⟨t, paramID, id, hparam, hcircuit⟩ := exec_storeFullCircuit heq
    have hexec : k.exec s (.storeVkParam blockTime creator hasAuth paramBytes authZ) = .ok t := resultState_of_ok hparam
    have ht := h.other hexec (by simp)
    exact ht.storeCircuit (hn.alloc hlt (storeVkParam_alloc hparam)) (hread _ rfl) hcircuit
  | payCircuitDeposit => exact h.payCircuitDeposit heq
  | endBlock blockTime => exact h.prune heq
  | _ => exact h.other heq (by simp)

theorem run_filed (p : Params) (vm : ν) (app : β) (ops : List Op) (hread : ∀ op ∈ ops, k.Reads op)
    (hlen : ops.length < 2 ^ 63) :
    Filed k (run k.step ⟨initialStore p, vm, app⟩ ops).store := by
  have hstart : Filed k (initialStore p) :=
    { formed := initialStore_formed p
      indexed :=
        { unpaid := fun h => by simp [row_initialStore] at h
          circuit := fun h => by simp [row_initialStore] at h }
      expiry := fun h => by simp [row_initialStore] at h
      listed := fun h => by simp [row_initialStore] at h }
  obtain ⟨n, -, -, h⟩ := run_numbered_along
    (fun _ hn hlt hread heq h => exec_filed hn hlt hread h heq) hstart ops hlen (.of_mem hread _)
  exact h

end runs

/-! ## Counting -/

theorem length_eq_of_mem_iff {α : Type} {l l' : List α} (hl : l.Nodup) (hl' : l'.Nodup)
    (h : ∀ x, x ∈ l' ↔ x ∈ l) : l'.length = l.length :=
  ((perm_ext_iff_of_nodup hl' hl).mpr h).length_eq

theorem length_add_one_of_erased {α : Type} [DecidableEq α] {l l' : List α} {a : α} (hl : l.Nodup)
    (hl' : l'.Nodup) (ha : a ∈ l) (h : ∀ x, x ∈ l' ↔ x ≠ a ∧ x ∈ l) : l'.length + 1 = l.length := by
  have hperm : l'.length = (l.erase a).length :=
    length_eq_of_mem_iff (hl.erase a) hl' fun x => (h x).trans hl.mem_erase_iff.symm
  have hpos := length_pos_of_mem ha
  rw [hperm, length_erase_of_mem ha]
  omega

theorem mem_gcCreators {s : Store} (hs : Formed s) {blockTime : Int64} {addr : AccAddress} :
    addr ∈ gcCreators s (nowUnix blockTime) ↔ (∃ u : UInt64, (row s (.expiry u addr)).isSome ∧
      u.toNat ≤ (nowUnix blockTime).toNat) ∨ (row s (.gc addr)).isSome := by
  rw [gcCreators, mem_append, (pendingGC_spec hs).2, mem_map]
  refine or_congr_left ⟨?_, ?_⟩
  · rintro ⟨⟨u, addr'⟩, hmem, rfl⟩
    exact ⟨u, ((expiredHits_spec hs blockTime).2 u addr').mp hmem⟩
  · rintro ⟨u, hu⟩
    exact ⟨(u, addr), ((expiredHits_spec hs blockTime).2 u addr).mpr hu, rfl⟩

theorem length_pendingGC_congr {s t : Store} (hs : Formed s) (ht : Formed t)
    (h : ∀ addr, row t (.gc addr) = row s (.gc addr)) : (pendingGC t).length = (pendingGC s).length := by
  obtain ⟨hnodup, hmem⟩ := pendingGC_spec hs
  obtain ⟨hnodup', hmem'⟩ := pendingGC_spec ht
  refine length_eq_of_mem_iff hnodup hnodup' fun addr => ?_
  rw [hmem, hmem', h]

theorem length_pendingGC_drop {s : Store} (hs : Formed s) (addr : AccAddress) :
    (pendingGC (drop s (.gc addr))).length + (if (row s (.gc addr)).isSome then 1 else 0) = (pendingGC s).length := by
  have hdrop : Formed (drop s (.gc addr)) := FormedOn.drop hs _
  split_ifs with hmarked
  · obtain ⟨hnodup, hmem⟩ := pendingGC_spec hs
    obtain ⟨hnodup', hmem'⟩ := pendingGC_spec hdrop
    refine length_add_one_of_erased hnodup hnodup' ((hmem addr).mpr hmarked) fun addr' => ?_
    rw [hmem, hmem', row_drop]
    by_cases heq : addr' = addr
    · simp [heq]
    · simp [heq, Ne.symm heq]
  · refine length_pendingGC_congr hs hdrop fun addr' => ?_
    rw [row_drop]
    split_ifs with heq
    · cases heq
      rw [Option.not_isSome_iff_eq_none.mp hmarked]
    · rfl

theorem length_pendingGC_put {s : Store} (hs : Formed s) (addr : AccAddress) (v : Bytes) :
    (pendingGC (put s (.gc addr) (.raw v))).length + (if (row s (.gc addr)).isSome then 1 else 0) =
      (pendingGC s).length + 1 := by
  -- without the new marker the two stores have the same ones
  have hput : Formed (put s (.gc addr) (.raw v)) := FormedOn.put hs trivial
  have hafter := length_pendingGC_drop hput addr
  have hbefore := length_pendingGC_drop hs addr
  have hsame : (pendingGC (drop (put s (.gc addr) (.raw v)) (.gc addr))).length =
      (pendingGC (drop s (.gc addr))).length := by
    refine length_pendingGC_congr (FormedOn.drop hs _) (FormedOn.drop hput _) fun addr' => ?_
    rw [row_drop, row_drop, row_put]
    split_ifs <;> rfl
  rw [row_put_self, Option.isSome_some, if_pos rfl] at hafter
  omega

section counting

variable {s : State ν β} {addr : AccAddress} {creators : List AccAddress}

theorem circuitsOf_spec {s : Store} (h : Filed k s) (creators : List AccAddress) :
    (k.circuitsOf s creators).Nodup ∧ ∀ id, id ∈ k.circuitsOf s creators ↔
      ∃ addr ∈ creators, (row s (.creator addr id)).isSome := by
  refine ⟨?_, fun id => ?_⟩
  · exact (infos_nodup Key.circuit (fun _ => rfl) (circuit_named h.formed)).sublist (filter_sublist.map Prod.fst)
  · simp only [Keeper.circuitsOf, mem_map, mem_filter, Option.any_eq_true, contains_iff_mem]
    constructor
    · rintro ⟨⟨id, info⟩, ⟨hmem, addr, hparse, haddr⟩, rfl⟩
      obtain ⟨addr', hcreator, hindex⟩ := h.listed ((mem_circuitInfos h.formed).mp hmem)
      cases hcreator.symm.trans hparse
      exact ⟨_, haddr, hindex⟩
    · rintro ⟨addr, haddr, hindex⟩
      obtain ⟨info, hinfo, hcreator⟩ := h.indexed.circuit hindex
      exact ⟨(id, info), ⟨(mem_circuitInfos h.formed).mpr hinfo, addr, hcreator, haddr⟩, rfl⟩

theorem length_circuitsOf_congr {s t : Store} (creators : List AccAddress) (hs : Filed k s) (ht : Filed k t)
    (h : ∀ addr id, row t (.creator addr id) = row s (.creator addr id)) :
    (k.circuitsOf t creators).length = (k.circuitsOf s creators).length := by
  obtain ⟨hnodup, hmem⟩ := circuitsOf_spec hs creators
  obtain ⟨hnodup', hmem'⟩ := circuitsOf_spec ht creators
  exact length_eq_of_mem_iff hnodup hnodup' fun id => by simp only [hmem, hmem', h]

theorem circuitsOf_pruneCircuit (h : Filed k s.store) (haddr : addr ∈ creators) {id : UInt64}
    (hindex : (row s.store (.creator addr id)).isSome) :
    (k.circuitsOf (k.pruneCircuit addr s id).store creators).length + 1 = (k.circuitsOf s.store creators).length := by
  obtain ⟨hnodup, hmem⟩ := circuitsOf_spec h creators
  obtain ⟨hnodup', hmem'⟩ := circuitsOf_spec (h.pruneCircuit hindex) creators
  obtain ⟨hindexed, hgone⟩ := h.indexed.pruneCircuit hindex
  refine length_add_one_of_erased hnodup hnodup' ((hmem id).mpr ⟨addr, haddr, hindex⟩) fun id' => ?_
  rw [hmem, hmem']
  by_cases hid : id' = id
  · subst hid
    refine iff_of_false ?_ (fun hne => hne.1 rfl)
    rintro ⟨addr', -, hindex'⟩
    obtain ⟨info, hinfo, -⟩ := hindexed.circuit hindex'
    simp [hgone] at hinfo
  · have hother : ∀ a, row (k.pruneCircuit addr s id).store (.creator a id') = row s.store (.creator a id') :=
      fun a => row_pruneCircuit addr s (by simpa using hid)
    simp only [hother, ne_eq, hid, not_false_eq_true, true_and]

theorem foldl_pruneCircuit_counts : ∀ (ids : List UInt64) (s : State ν β), Filed k s.store → ids.Nodup →
    (∀ id ∈ ids, (row s.store (.creator addr id)).isSome) → addr ∈ creators →
    Filed k (ids.foldl (k.pruneCircuit addr) s).store ∧
      (∀ id ∈ ids, row (ids.foldl (k.pruneCircuit addr) s).store (.creator addr id) = none) ∧
      (k.circuitsOf (ids.foldl (k.pruneCircuit addr) s).store creators).length + ids.length =
        (k.circuitsOf s.store creators).length
  | [], s, h, _, _, _ => ⟨h, by simp, rfl⟩
  | id :: ids, s, h, hnodup, hids, haddr => by
    obtain ⟨hid, hnodup⟩ := nodup_cons.mp hnodup
    have hindex := hids id mem_cons_self
    have hfiled := h.pruneCircuit hindex
    have hrest : ∀ id' ∈ ids, (row (k.pruneCircuit addr s id).store (.creator addr id')).isSome := by
      intro id' hmem
      have hne : id' ≠ id := fun heq => hid (heq ▸ hmem)
      rw [row_pruneCircuit addr s (by simpa using hne)]
      exact hids id' (mem_cons_of_mem id hmem)
    obtain ⟨hfiled', hnone, hcount⟩ := foldl_pruneCircuit_counts ids _ hfiled hnodup hrest haddr
    have hone := circuitsOf_pruneCircuit h haddr hindex
    refine ⟨hfiled', ?_, ?_⟩
    · intro id' hmem
      rcases mem_cons.mp hmem with rfl | hmem
      · rw [← Option.not_isSome_iff_eq_none]
        intro hleft
        obtain ⟨hindexed, hgone⟩ := h.indexed.pruneCircuit hindex
        obtain ⟨info, hinfo, -⟩ := hindexed.circuit (isSome_of_foldl_pruneCircuit ids _ hleft)
        simp [hgone] at hinfo
      · exact hnone id' hmem
    · rw [foldl_cons, length_cons]
      omega

end counting

/-! ## Sweeps -/

/-- What a sweep of `addr` leaves: `addr` keeps a marker if it keeps circuits, and the entries and markers
of others stay. -/
structure Cleared (k : Keeper ν β) (addr : AccAddress) (s t : Store) : Prop where
  filed : Filed k t
  params : row t .params = row s .params
  gc : ∀ a, a ≠ addr → row t (.gc a) = row s (.gc a)
  entry : ∀ u a, a ≠ addr → row t (.expiry u a) = row s (.expiry u a)
  expiry : ∀ u, (row t (.expiry u addr)).isSome → (row s (.expiry u addr)).isSome
  index : ∀ a id, (row t (.creator a id)).isSome → (row s (.creator a id)).isSome
  settled : ∀ id, (row t (.creator addr id)).isSome → (row t (.gc addr)).isSome

/-- A collection at work on `creators`: whoever has circuits left has an entry or a marker, and nobody may upload
circuits. -/
structure Draining (k : Keeper ν β) (blockTime : Int64) (creators : List AccAddress) (s : Store) : Prop where
  filed : Filed k s
  among : ∀ addr ∈ gcCreators s (nowUnix blockTime), addr ∈ creators
  found : ∀ addr ∈ creators, ∀ id, (row s (.creator addr id)).isSome →
    addr ∈ gcCreators s (nowUnix blockTime)
  ruled : ∀ hit ∈ expiredHits s (nowUnix blockTime), k.Ruled s hit.2 false

theorem Draining.cleared {blockTime : Int64} {creators : List AccAddress} {s t : Store} {addr : AccAddress}
    (h : Draining k blockTime creators s) (haddr : addr ∈ gcCreators s (nowUnix blockTime))
    (hcleared : Cleared k addr s t) : Draining k blockTime creators t := by
  have hs := h.filed.formed
  have ht := hcleared.filed.formed
  have hentry : ∀ u a, (row t (.expiry u a)).isSome → (row s (.expiry u a)).isSome := by
    intro u a hrow
    by_cases ha : a = addr
    · subst ha
      exact hcleared.expiry u hrow
    · rwa [hcleared.entry u a ha] at hrow
  refine ⟨hcleared.filed, ?_, ?_, ?_⟩
  · intro a ha
    by_cases heq : a = addr
    · exact heq ▸ h.among addr haddr
    · refine h.among a ((mem_gcCreators hs).mpr ?_)
      rcases (mem_gcCreators ht).mp ha with ⟨u, hrow, hu⟩ | hrow
      · exact .inl ⟨u, hentry u a hrow, hu⟩
      · exact .inr (by rwa [hcleared.gc a heq] at hrow)
  · intro a ha id hid
    by_cases heq : a = addr
    · subst heq
      exact (mem_gcCreators ht).mpr (.inr (hcleared.settled id hid))
    · refine (mem_gcCreators ht).mpr ?_
      rw [hcleared.gc a heq]
      simp only [hcleared.entry _ a heq]
      exact (mem_gcCreators hs).mp (h.found a ha id (hcleared.index a id hid))
  · rintro ⟨u, a⟩ hmem
    obtain ⟨hrow, hu⟩ := ((expiredHits_spec ht blockTime).2 u a).mp hmem
    have hruled := h.ruled (u, a) (((expiredHits_spec hs blockTime).2 u a).mpr ⟨hentry u a hrow, hu⟩)
    exact (ruled_congr hcleared.params).mpr hruled

section sweeps

variable {s : State ν β} {addr : AccAddress} {creators : List AccAddress}

theorem pruneAndMark_cleared (h : Filed k s.store) (hunpaid : row s.store (.depositee addr) = none)
    (max : ℕ) : Cleared k addr s.store (k.pruneAndMark s addr max).1.store where
  filed := h.sweep hunpaid max
  params := row_pruneAndMark h.formed (by simp) (by simp) max
  gc a ha := row_pruneAndMark h.formed (by simp) (by simpa using Ne.symm ha) max
  entry u a _ := row_pruneAndMark h.formed (by simp) (by simp) max
  expiry u hrow := by
    rwa [row_pruneAndMark h.formed (by simp) (by simp) max] at hrow
  index a id := by
    refine pruneAndMark_rule (I := fun t => (row t.store (.creator a id)).isSome →
      (row s.store (.creator a id)).isSome) h.formed ?_ ?_ ?_ max fun hrow => hrow
    · intro t id' _ ht hrow
      exact ht (isSome_of_foldl_pruneCircuit [id'] t hrow)
    · intro t ht hrow
      rw [row_put_of_ne (by simp)] at hrow
      exact ht hrow
    · intro t _ ht hrow
      rw [row_drop_of_ne (by simp)] at hrow
      exact ht hrow
  settled id hrow := by
    obtain ⟨ids, -, -, -, -, ⟨-, hmarked⟩ | ⟨hnone, hunmarked⟩⟩ := pruneAndMark_eq h.formed addr max
    · rw [hmarked]
      simp
    · rw [hunmarked] at hrow
      rw [row_drop_of_ne (by simp), hnone] at hrow
      cases hrow

/-- A sweep that leaves a marker has used up the circuits that it may remove. -/
theorem pruneAndMark_full (h : Filed k s.store) (addr : AccAddress) (max : ℕ) :
    ∃ ids : List UInt64, ids.Nodup ∧ (∀ id ∈ ids, (row s.store (.creator addr id)).isSome) ∧
      (k.pruneAndMark s addr max).2 = ids.length ∧
      let t := ids.foldl (k.pruneCircuit addr) s
      ids.length = max ∧ (k.pruneAndMark s addr max).1 = { t with store := put t.store (.gc addr) (.raw [1]) } ∨
        (k.pruneAndMark s addr max).1 = { t with store := drop t.store (.gc addr) } := by
  obtain ⟨ids, hnodup, hids, -, hn, hends⟩ := pruneAndMark_eq h.formed addr max
  refine ⟨ids, hnodup, hids, hn, ?_⟩
  rcases hends with ⟨hfull | ⟨id, hid, hrow⟩, heq⟩ | ⟨-, heq⟩
  · exact .inl ⟨hfull, heq⟩
  · have hnone := (foldl_pruneCircuit_counts ids s h hnodup hids (mem_singleton_self addr)).2.1
    simp [hnone id hid] at hrow
  · exact .inr heq

/-- A sweep pays for the marker that it leaves with the circuits that it removes. -/
theorem pruneAndMark_work (h : Filed k s.store) (haddr : addr ∈ creators)
    (hunpaid : row s.store (.depositee addr) = none) {max : ℕ} (hmax : 0 < max) :
    (pendingGC (k.pruneAndMark s addr max).1.store).length +
        (k.circuitsOf (k.pruneAndMark s addr max).1.store creators).length +
        (if (row s.store (.gc addr)).isSome then 1 else 0) ≤
      (pendingGC s.store).length + (k.circuitsOf s.store creators).length := by
  have hfiled' := h.sweep hunpaid max
  obtain ⟨ids, hnodup, hids, -, hends⟩ := pruneAndMark_full h addr max
  obtain ⟨hfiled, -, hcount⟩ := foldl_pruneCircuit_counts ids s h hnodup hids haddr
  have hgc : ∀ a, row (ids.foldl (k.pruneCircuit addr) s).store (.gc a) = row s.store (.gc a) := fun a =>
    row_foldl_pruneCircuit ids s fun _ _ => by simp
  have hmarks := length_pendingGC_congr h.formed hfiled.formed hgc
  -- markers are no index entries
  have hcircuits := fun t (ht : Filed k t) => length_circuitsOf_congr creators hfiled ht
  rcases hends with ⟨hlen, heq⟩ | heq
  · rw [heq] at hfiled' ⊢
    have hput := length_pendingGC_put hfiled.formed addr [1]
    have hsame := hcircuits _ hfiled' fun a id => row_put_of_ne (by simp)
    rw [hgc] at hput
    dsimp only at hsame ⊢
    omega
  · rw [heq] at hfiled' ⊢
    have hdrop := length_pendingGC_drop hfiled.formed addr
    have hsame := hcircuits _ hfiled' fun a id => row_drop_of_ne (by simp)
    rw [hgc] at hdrop
    dsimp only at hsame ⊢
    omega

end sweeps

/-! ## Deposits that have run out -/

section hits

variable {s : State ν β} {blockTime : Int64} {u : UInt64} {addr : AccAddress}

theorem length_expiredHits_congr {s t : Store} (blockTime : Int64) (hs : Formed s) (ht : Formed t)
    (h : ∀ u addr, row t (.expiry u addr) = row s (.expiry u addr)) :
    (expiredHits t (nowUnix blockTime)).length = (expiredHits s (nowUnix blockTime)).length := by
  obtain ⟨hnodup, hmem⟩ := expiredHits_spec hs blockTime
  obtain ⟨hnodup', hmem'⟩ := expiredHits_spec ht blockTime
  refine length_eq_of_mem_iff hnodup hnodup' ?_
  rintro ⟨u, addr⟩
  rw [hmem, hmem', h]

section

variable (h : Filed k s.store) (hhit : (u, addr) ∈ expiredHits s.store (nowUnix blockTime))

include h hhit

theorem length_expiredHits_lapse : (expiredHits (s.lapse u addr).store (nowUnix blockTime)).length + 1 =
      (expiredHits s.store (nowUnix blockTime)).length := by
  obtain ⟨hnodup, hmem⟩ := expiredHits_spec h.formed blockTime
  obtain ⟨hnodup', hmem'⟩ := expiredHits_spec (lapse_formed h.formed u addr) blockTime
  refine length_add_one_of_erased hnodup hnodup' hhit ?_
  rintro ⟨u', addr'⟩
  rw [hmem, hmem', row_lapse]
  by_cases heq : (u', addr') = (u, addr)
  · cases heq
    simp
  · rw [if_neg (by simpa using heq)]
    exact (and_iff_right heq).symm

theorem isDue_of_mem_expiredHits : isDue s.store (nowUnix blockTime) u addr = true := by
  obtain ⟨hrow, hu⟩ := ((expiredHits_spec h.formed blockTime).2 u addr).mp hhit
  have hnow := toNat_nowUnix_lt blockTime
  have htime : ∀ x : UInt64, x.toNat < 2 ^ 63 → x.toInt64.toInt = x.toNat := by
    intro x hx
    have hcast := toInt_toInt64_ofNat hx
    rwa [UInt64.ofNat_toNat] at hcast
  rw [isDue, circuitDepositPaidUntil_be64 (h.expiry hrow)]
  simp only [decide_true, Bool.true_and, Bool.not_eq_true', decide_eq_false_iff_not]
  rw [Int64.lt_iff_toInt_lt, htime _ hnow, htime u (by omega)]
  omega

end

theorem expiredHits_addresses_nodup (h : Filed k s.store) :
    ((expiredHits s.store (nowUnix blockTime)).map Prod.snd).Nodup := by
  obtain ⟨hnodup, hmem⟩ := expiredHits_spec h.formed blockTime
  refine List.Nodup.map_on ?_ hnodup
  rintro ⟨u, addr⟩ hhit ⟨u', addr'⟩ hhit' rfl
  have hrow := h.expiry ((hmem u addr).mp hhit).1
  have hrow' := h.expiry ((hmem u' addr).mp hhit').1
  rw [hrow, Option.some_inj, Value.raw.injEq] at hrow'
  rw [be64_injective hrow']

end hits

/-! ## The loops -/

section loops

variable {blockTime : Int64} {creators : List AccAddress}

theorem Draining.sweep_marked {s : State ν β} {addr : AccAddress} (h : Draining k blockTime creators s.store)
    (hmarked : (row s.store (.gc addr)).isSome) {max : ℕ} (hmax : 0 < max) :
    Cleared k addr s.store (k.pruneAndMark s addr max).1.store ∧
      k.workOn creators (k.pruneAndMark s addr max).1.store (nowUnix blockTime) <
        k.workOn creators s.store (nowUnix blockTime) := by
  have hunpaid := h.filed.indexed.unpaid hmarked
  have haddr := h.among addr ((mem_gcCreators h.filed.formed).mpr (.inr hmarked))
  have hcleared := pruneAndMark_cleared h.filed hunpaid max
  have hwork := pruneAndMark_work h.filed haddr hunpaid hmax
  have hhits := length_expiredHits_congr blockTime h.filed.formed hcleared.filed.formed
    fun u a => row_pruneAndMark h.filed.formed (by simp) (by simp) max
  rw [if_pos hmarked] at hwork
  refine ⟨hcleared, ?_⟩
  unfold Keeper.workOn
  omega

theorem Draining.sweep_lapsed {s : State ν β} {u : UInt64} {addr : AccAddress}
    (h : Draining k blockTime creators s.store)
    (hhit : (u, addr) ∈ expiredHits s.store (nowUnix blockTime)) {max : ℕ} (hmax : 0 < max) :
    Cleared k addr s.store (k.pruneAndMark (s.lapse u addr) addr max).1.store ∧
      k.workOn creators (k.pruneAndMark (s.lapse u addr) addr max).1.store (nowUnix blockTime) <
        k.workOn creators s.store (nowUnix blockTime) := by
  have hrow := ((expiredHits_spec h.filed.formed blockTime).2 u addr).mp hhit
  have hlapse := h.filed.lapse (circuitDepositPaidUntil_be64 (h.filed.expiry hrow.1))
  have hunpaid : row (s.lapse u addr).store (.depositee addr) = none := by simp [row_lapse]
  have haddr := h.among addr ((mem_gcCreators h.filed.formed).mpr (.inl ⟨u, hrow⟩))
  have hsweep := pruneAndMark_cleared hlapse hunpaid max
  refine ⟨⟨hsweep.filed, ?_, ?_, ?_, ?_, ?_, hsweep.settled⟩, ?_⟩
  · simp [hsweep.params, row_lapse]
  · intro a ha
    simp [hsweep.gc a ha, row_lapse]
  · intro u' a ha
    simp [hsweep.entry u' a ha, row_lapse, ha]
  · intro u' hentry
    have hold := hsweep.expiry u' hentry
    rw [row_lapse_expiry] at hold
    split_ifs at hold
    · cases hold
    · exact hold
  · intro a id hindex
    simpa [row_lapse] using hsweep.index a id hindex
  · -- the entry is gone, and the address, which had a row, was not marked before
    have hwork := pruneAndMark_work hlapse haddr hunpaid hmax
    have hhits := length_expiredHits_lapse h.filed hhit
    have hhits' := length_expiredHits_congr blockTime hlapse.formed hsweep.filed.formed
      fun u' a => row_pruneAndMark hlapse.formed (by simp) (by simp) max
    have hmarks := length_pendingGC_congr h.filed.formed hlapse.formed (by simp [row_lapse])
    have hcircuits := length_circuitsOf_congr creators h.filed hlapse (by simp [row_lapse])
    unfold Keeper.workOn
    omega

/-- The collection goes on from `s` to `t`: there is no more to do, and less if it is `busy`. -/
structure Progress (k : Keeper ν β) (blockTime : Int64) (creators : List AccAddress) (busy : Prop) (s t : Store) :
    Prop where
  draining : Draining k blockTime creators t
  le : k.workOn creators t (nowUnix blockTime) ≤ k.workOn creators s (nowUnix blockTime)
  lt : busy → k.workOn creators t (nowUnix blockTime) < k.workOn creators s (nowUnix blockTime)

theorem Draining.idle {busy : Prop} {s : Store} (h : Draining k blockTime creators s) (hidle : ¬ busy) :
    Progress k blockTime creators busy s s :=
  ⟨h, Nat.le_refl _, fun hbusy => absurd hbusy hidle⟩

theorem Progress.after {busy busy' : Prop} {s t t' : Store} (h : Progress k blockTime creators busy t t')
    (hlt : k.workOn creators t (nowUnix blockTime) < k.workOn creators s (nowUnix blockTime)) :
    Progress k blockTime creators busy' s t' :=
  ⟨h.draining, (Nat.lt_of_le_of_lt h.le hlt).le, fun _ => Nat.lt_of_le_of_lt h.le hlt⟩

theorem prunePending_drains : ∀ (addrs : List AccAddress) (c d : ℕ) (s : State ν β),
    Draining k blockTime creators s.store → addrs.Nodup → (∀ addr ∈ addrs, (row s.store (.gc addr)).isSome) →
    Progress k blockTime creators (addrs ≠ [] ∧ c ≠ 0 ∧ d ≠ 0) s.store (k.prunePending c d s addrs).1.store
  | [], c, d, s, h, _, _ => h.idle (by simp)
  | addr :: addrs, c, d, s, h, hnodup, hmarked => by
    by_cases hbudget : d = 0 ∨ c = 0
    · rw [Keeper.prunePending, if_pos hbudget]
      exact h.idle (by tauto)
    · obtain ⟨haddr, hnodup⟩ := nodup_cons.mp hnodup
      have hmarked₁ := hmarked addr mem_cons_self
      obtain ⟨hcleared, hlt⟩ := h.sweep_marked hmarked₁ (Nat.pos_of_ne_zero fun hc => hbudget (.inr hc) : 0 < c)
      have hnext := h.cleared ((mem_gcCreators h.filed.formed).mpr (.inr hmarked₁)) hcleared
      have hrest : ∀ a ∈ addrs, (row (k.pruneAndMark s addr c).1.store (.gc a)).isSome := by
        intro a ha
        rw [hcleared.gc a fun heq => haddr (heq ▸ ha)]
        exact hmarked a (mem_cons_of_mem addr ha)
      rw [prunePending_cons hbudget]
      exact (prunePending_drains addrs _ _ _ hnext hnodup hrest).after hlt

theorem pruneExpired_drains : ∀ (hits : List (UInt64 × AccAddress)) (c d : ℕ) (s : State ν β),
    Draining k blockTime creators s.store → (hits.map Prod.snd).Nodup →
    (∀ hit ∈ hits, hit ∈ expiredHits s.store (nowUnix blockTime)) →
    ∃ s', k.pruneExpired (nowUnix blockTime) c d s hits = .ok s' ∧
      Progress k blockTime creators (hits ≠ [] ∧ c ≠ 0 ∧ d ≠ 0) s.store s'.store
  | [], c, d, s, h, _, _ => ⟨s, rfl, h.idle (by simp)⟩
  | (u, addr) :: hits, c, d, s, h, hnodup, hhits => by
    by_cases hbudget : d = 0 ∨ c = 0
    · rw [Keeper.pruneExpired, if_pos hbudget]
      exact ⟨s, rfl, h.idle (by tauto)⟩
    · obtain ⟨haddr, hnodup⟩ := nodup_cons.mp hnodup
      have hhit := hhits (u, addr) mem_cons_self
      obtain ⟨hcleared, hlt⟩ := h.sweep_lapsed hhit (Nat.pos_of_ne_zero fun hc => hbudget (.inr hc) : 0 < c)
      have hentry := ((expiredHits_spec h.filed.formed blockTime).2 u addr).mp hhit
      have hnext := h.cleared ((mem_gcCreators h.filed.formed).mpr (.inl ⟨u, hentry⟩)) hcleared
      have hrest : ∀ hit ∈ hits, hit ∈ expiredHits (k.pruneAndMark (s.lapse u addr) addr c).1.store
          (nowUnix blockTime) := by
        rintro ⟨u', a⟩ hmem
        have hold := ((expiredHits_spec h.filed.formed blockTime).2 u' a).mp
          (hhits _ (mem_cons_of_mem (u, addr) hmem))
        refine ((expiredHits_spec hnext.filed.formed blockTime).2 u' a).mpr ?_
        rwa [hcleared.entry u' a fun heq => haddr (mem_map.mpr ⟨(u', a), hmem, heq⟩)]
      obtain ⟨s', heq, hprogress⟩ := pruneExpired_drains hits
        (c - (k.pruneAndMark (s.lapse u addr) addr c).2) (d - 1) _ hnext hnodup hrest
      refine ⟨s', ?_, hprogress.after hlt⟩
      rw [← heq]
      exact pruneExpired_sweep hbudget (isDue_of_mem_expiredHits h.filed hhit) (h.ruled _ hhit)

/-- A call returns, keeps the collection at work, and does something as long as there is something to do. -/
theorem Draining.prune {s : State ν β} (h : Draining k blockTime creators s.store) :
    ∃ s', k.pruneExpiredCircuitDeposits s blockTime = .ok s' ∧
      Progress k blockTime creators (gcCreators s.store (nowUnix blockTime) ≠ []) s.store s'.store := by
  obtain ⟨hnodup, hmem⟩ := pendingGC_spec h.filed.formed
  obtain ⟨hdrain, hle, hlt⟩ := prunePending_drains (pendingGC s.store) maxCircuitDepositGCCircuits
    maxCircuitDepositGCDepositees s h hnodup fun addr haddr => (hmem addr).mp haddr
  unfold Keeper.pruneExpiredCircuitDeposits
  rcases hres : k.prunePending maxCircuitDepositGCCircuits maxCircuitDepositGCDepositees s
      (pendingGC s.store) with ⟨t, left⟩
  rw [hres] at hdrain hle hlt
  have hpending : pendingGC s.store ≠ [] → k.workOn creators t.store (nowUnix blockTime) <
      k.workOn creators s.store (nowUnix blockTime) := fun hne => hlt ⟨hne, by decide, by decide⟩
  rcases left with _ | ⟨c, d⟩
  · refine ⟨t, rfl, hdrain, hle, fun hwork => hpending ?_⟩
    -- an empty list does not use up the budgets
    intro hnil
    rw [hnil] at hres
    cases hres
  · have hsub : (((expiredHits t.store (nowUnix blockTime)).take d).map Prod.snd).Nodup :=
      (expiredHits_addresses_nodup hdrain.filed).sublist ((take_sublist ..).map _)
    obtain ⟨s', heq, hdrain', hle', hlt'⟩ := pruneExpired_drains _ c d t hdrain hsub
      fun hit hhit => mem_of_mem_take hhit
    refine ⟨s', heq, hdrain', hle'.trans hle, fun hwork => ?_⟩
    by_cases hnil : pendingGC s.store = []
    · rw [hnil] at hres
      cases hres
      refine Nat.lt_of_lt_of_le (hlt' ⟨?_, by decide, by decide⟩) hle
      intro htake
      have hhits : expiredHits s.store (nowUnix blockTime) = [] := by
        rcases take_eq_nil_iff.mp htake with hzero | hhits
        · cases hzero
        · exact hhits
      exact hwork (by rw [gcCreators, hhits, hnil]; rfl)
    · exact Nat.lt_of_le_of_lt hle' (hpending hnil)

theorem Draining.circuitsOf_eq_nil {s : Store} (h : Draining k blockTime creators s)
    (hnil : gcCreators s (nowUnix blockTime) = []) : k.circuitsOf s creators = [] := by
  refine eq_nil_iff_forall_not_mem.mpr fun id hmem => ?_
  obtain ⟨addr, haddr, hindex⟩ := ((circuitsOf_spec h.filed creators).2 id).mp hmem
  have hfound := h.found addr haddr id hindex
  simp [hnil] at hfound

theorem Draining.workOn_eq_zero {s : Store} (h : Draining k blockTime creators s) :
    k.workOn creators s (nowUnix blockTime) = 0 ↔ gcCreators s (nowUnix blockTime) = [] := by
  constructor
  · intro hzero
    unfold Keeper.workOn at hzero
    rw [gcCreators, eq_nil_of_length_eq_zero (l := expiredHits s _) (by omega),
      eq_nil_of_length_eq_zero (l := pendingGC s) (by omega)]
    rfl
  · intro hnil
    obtain ⟨hhits, hpending⟩ := append_eq_nil_iff.mp hnil
    rw [Keeper.workOn, map_eq_nil_iff.mp hhits, hpending, h.circuitsOf_eq_nil hnil]
    rfl

theorem Draining.gcWork_eq {s : Store} (h : Draining k blockTime creators s) :
    k.gcWork s (nowUnix blockTime) = k.workOn creators s (nowUnix blockTime) := by
  obtain ⟨hnodup, hmem⟩ := circuitsOf_spec h.filed creators
  obtain ⟨hnodup', hmem'⟩ := circuitsOf_spec h.filed (gcCreators s (nowUnix blockTime))
  have hsame := length_eq_of_mem_iff hnodup hnodup' fun id => by
    rw [hmem, hmem']
    constructor
    · rintro ⟨addr, haddr, hindex⟩
      exact ⟨addr, h.among addr haddr, hindex⟩
    · rintro ⟨addr, haddr, hindex⟩
      exact ⟨addr, h.found addr haddr id hindex, hindex⟩
  rw [Keeper.gcWork, Keeper.workOn, Keeper.workOn, hsame]

/-- Every call takes one off the work, until there is none. -/
theorem Draining.calls : ∀ (n : ℕ) {s : State ν β}, Draining k blockTime creators s.store →
    Draining k blockTime creators (run k.step s (List.replicate n (.endBlock blockTime))).store ∧
      k.workOn creators (run k.step s (List.replicate n (.endBlock blockTime))).store (nowUnix blockTime) ≤
        k.workOn creators s.store (nowUnix blockTime) - n
  | 0, s, h => ⟨h, Nat.le_refl _⟩
  | n + 1, s, h => by
    obtain ⟨s', heq, hdrain, hle, hlt⟩ := h.prune
    have hstep : k.step s (.endBlock blockTime) = s' := by
      rw [Keeper.step, Keeper.exec, heq]
      rfl
    obtain ⟨hdrain', hrest⟩ := Draining.calls n hdrain
    rw [replicate_succ, run_cons, hstep]
    refine ⟨hdrain', ?_⟩
    by_cases hnil : gcCreators s.store (nowUnix blockTime) = []
    · have hzero := h.workOn_eq_zero.mpr hnil
      omega
    · have hdown := hlt hnil
      omega

end loops

/-- The calls of the collection at one block time: each lowers the work while there is some, and after as many calls
as there was work no entry is due, nobody is marked and the creators have no circuits. -/
structure Drains (k : Keeper ν β) (s : State ν β) (blockTime : Int64) : Prop where
  decreases : ∀ n, let t := run k.step s (List.replicate n (.endBlock blockTime))
    k.gcWork t.store (nowUnix blockTime) ≠ 0 → ∃ t', k.pruneExpiredCircuitDeposits t blockTime = .ok t' ∧
      k.gcWork t'.store (nowUnix blockTime) < k.gcWork t.store (nowUnix blockTime)
  drained : ∀ n, k.gcWork s.store (nowUnix blockTime) ≤ n →
    let t := run k.step s (List.replicate n (.endBlock blockTime))
    expiredHits t.store (nowUnix blockTime) = [] ∧ pendingGC t.store = [] ∧
      k.circuitsOf t.store (gcCreators s.store (nowUnix blockTime)) = []

/-- **The collection drains every reachable state in which those whose deposit has run out are not allowed
to upload circuits.** -/
theorem collection_drains (p : Params) (vm : ν) (app : β) (ops : List Op) (hread : ∀ op ∈ ops, k.Reads op)
    (hlen : ops.length < 2 ^ 63) (blockTime : Int64)
    (hruled : ∀ hit ∈ expiredHits (run k.step ⟨initialStore p, vm, app⟩ ops).store (nowUnix blockTime),
      k.Ruled (run k.step ⟨initialStore p, vm, app⟩ ops).store hit.2 false) :
    Drains k (run k.step ⟨initialStore p, vm, app⟩ ops) blockTime := by
  have hfiled := run_filed p vm app ops hread hlen
  generalize run k.step ⟨initialStore p, vm, app⟩ ops = s at hfiled hruled ⊢
  have hstart : Draining k blockTime (gcCreators s.store (nowUnix blockTime)) s.store :=
    ⟨hfiled, fun _ => id, fun _ haddr _ _ => haddr, hruled⟩
  constructor
  · intro n t hwork
    obtain ⟨hdrain, -⟩ := hstart.calls n
    obtain ⟨t', heq, hdrain', -, hlt⟩ := hdrain.prune
    rw [hdrain.gcWork_eq] at hwork ⊢
    refine ⟨t', heq, ?_⟩
    rw [hdrain'.gcWork_eq]
    exact hlt fun hnil => hwork (hdrain.workOn_eq_zero.mpr hnil)
  · intro n hn t
    obtain ⟨hdrain, hle⟩ := hstart.calls n
    have hzero : k.workOn (gcCreators s.store (nowUnix blockTime)) t.store (nowUnix blockTime) = 0 :=
      Nat.eq_zero_of_le_zero (hle.trans (Nat.le_of_eq (Nat.sub_eq_zero_of_le hn)))
    have hnil := hdrain.workOn_eq_zero.mp hzero
    obtain ⟨hhits, hpending⟩ := append_eq_nil_iff.mp hnil
    exact ⟨map_eq_nil_iff.mp hhits, hpending, hdrain.circuitsOf_eq_nil hnil⟩

/-- Account 1 has three circuits when its year is over: two calls remove them. -/
theorem lapsed_circuits_drain :
    let s := sampleRun (lapsedOps.take 5)
    sample.keeper.gcWork s.store (nowUnix 31536000) = 4 ∧ gcCreators s.store (nowUnix 31536000) = [account 1] ∧
      sample.keeper.circuitsOf s.store [account 1] = [1, 2, 3] ∧
      Drains sample.keeper s 31536000 := by
  have hruled : ∀ hit ∈ expiredHits (sampleRun (lapsedOps.take 5)).store (nowUnix 31536000),
      sample.keeper.Ruled (sampleRun (lapsedOps.take 5)).store hit.2 false := by
    have hparams : getParams (sampleRun (lapsedOps.take 5)).store = .ok nobodyParams := by decide +kernel
    have hclosed : nobodyParams.circuitUploadAccessConfig.allowed
        (Tables.sample.keeper.bech32 (account 1)) = some false := by decide +kernel
    intro hit hmem
    exact ⟨nobodyParams, getParams_eq_ok.mp hparams, hclosed⟩
  have hdrains := collection_drains (k := sample.keeper) nobodyParams {} () (lapsedOps.take 5)
    (by decide) (by decide) 31536000 hruled
  exact ⟨by decide +kernel, by decide +kernel, by decide +kernel, hdrains⟩

end Wasm
