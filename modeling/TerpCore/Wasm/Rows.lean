/-
  The store as a table of named rows.
-/
import Mathlib.Data.Set.List
import TerpCore.Wasm.Deposit

namespace Wasm

open Lib KVStore List

/-! ## Reads and writes by name -/

def row (s : Store) (key : Key) : Option Value := s.get key.encode

def put (s : Store) (key : Key) (v : Value) : Store := s.set key.encode v

def drop (s : Store) (key : Key) : Store := s.delete key.encode

theorem row_put (s : Store) (key key' : Key) (v : Value) :
    row (put s key v) key' = if key = key' then some v else row s key' := by
  simp [row, put, get_set]

theorem row_drop (s : Store) (key key' : Key) : row (drop s key) key' = if key = key' then none else row s key' := by
  simp [row, drop, get_delete]

@[simp] theorem row_put_self (s : Store) (key : Key) (v : Value) : row (put s key v) key = some v := by
  rw [row_put, if_pos rfl]

@[simp] theorem row_drop_self (s : Store) (key : Key) : row (drop s key) key = none := by
  rw [row_drop, if_pos rfl]

variable {s : Store} {key key' : Key} {v : Value}

theorem row_put_of_ne (h : key ≠ key') : row (put s key v) key' = row s key' := by
  rw [row_put, if_neg h]

theorem isSome_row_put : (row (put s key v) key').isSome ↔ key' = key ∨ (row s key').isSome := by
  by_cases h : key = key'
  · simp [h]
  · simp [row_put_of_ne h, Ne.symm h]

theorem row_drop_of_ne (h : key ≠ key') : row (drop s key) key' = row s key' := by
  rw [row_drop, if_neg h]

section writes

variable (s : Store)

theorem setParams_eq (p : Params) : setParams s p = put s .params (.params p) := rfl

theorem removeCircuitDepositee_eq (addr : AccAddress) : removeCircuitDepositee s addr = drop s (.depositee addr) := rfl

theorem deleteCircuitDepositExpiry_eq (paidUntil : UInt64) (addr : AccAddress) :
    deleteCircuitDepositExpiry s paidUntil addr = drop s (.expiry paidUntil addr) := rfl

end writes

section reads

variable {s : Store}

theorem getParams_eq_ok {p : Params} : getParams s = .ok p ↔ row s .params = some (.params p) := by
  rw [getParams, show s.get paramsKey = row s .params from rfl]
  split <;> simp_all

variable {id : UInt64} {t : Store}

theorem getCodeInfo_eq_some {c : CodeInfo} : getCodeInfo s id = some c ↔ row s (.code id) = some (.codeInfo c) := by
  rw [getCodeInfo, show s.get (getCodeKey id) = row s (.code id) from rfl]
  split <;> simp_all

theorem getCircuitInfo_eq_some {c : CircuitInfo} :
    getCircuitInfo s id = some c ↔ row s (.circuit id) = some (.circuitInfo c) := by
  rw [getCircuitInfo, show s.get (getCircuitKey id) = row s (.circuit id) from rfl]
  split <;> simp_all

theorem getCodeInfo_congr (h : row t (.code id) = row s (.code id)) : getCodeInfo t id = getCodeInfo s id :=
  Option.ext fun c => by rw [getCodeInfo_eq_some, getCodeInfo_eq_some, h]

theorem getCircuitInfo_congr
    (h : row t (.circuit id) = row s (.circuit id)) : getCircuitInfo t id = getCircuitInfo s id :=
  Option.ext fun c => by rw [getCircuitInfo_eq_some, getCircuitInfo_eq_some, h]

theorem getVkParamInfo_eq_some {p : VkParamInfo} :
    getVkParamInfo s id = some p ↔ row s (.vkParam id) = some (.vkParamInfo p) := by
  rw [getVkParamInfo, show s.get (getVkParamId id) = row s (.vkParam id) from rfl]
  split <;> simp_all

theorem getVkParamBytes_eq_ok {b : Bytes} :
    getVkParamBytes s id = .ok b ↔ row s (.vkParamBytes id) = some (.raw b) := by
  rw [getVkParamBytes, show s.get (getVkParamBytesKey id) = row s (.vkParamBytes id) from rfl]
  split <;> simp_all

theorem peekAutoIncrementID_congr {q : Seq} (h : row t (.seq q) = row s (.seq q)) :
    peekAutoIncrementID t q.key = peekAutoIncrementID s q.key := by
  rw [peekAutoIncrementID, show t.get q.key = row t (.seq q) from rfl, h]
  rfl

@[simp] theorem peekAutoIncrementID_put (s : Store) (q : Seq) (id : UInt64) :
    peekAutoIncrementID (put s (.seq q) (.raw (be64 id))) q.key = .ok id := by
  rw [peekAutoIncrementID, show (put s (.seq q) _).get q.key = row (put s (.seq q) _) (.seq q) from rfl]
  simp

theorem autoIncrementID_eq_ok {q : Seq} (h : autoIncrementID s q.key = .ok (id, t)) :
    peekAutoIncrementID s q.key = .ok id ∧ t = put s (.seq q) (.raw (be64 (id + 1))) := by
  obtain ⟨id', hpeek, hput⟩ := Outcome.bind_eq_ok.mp h
  cases hput
  exact ⟨hpeek, rfl⟩

theorem circuitDepositPaidUntil_be64 {addr : AccAddress} {paidUntil : UInt64}
    (h : row s (.depositee addr) = some (.raw (be64 paidUntil))) :
    circuitDepositPaidUntil s addr = some paidUntil := by
  rw [circuitDepositPaidUntil, show s.get (getCircuitDepositeeKey addr) = row s (.depositee addr) from rfl, h]
  simp

theorem circuitDepositPaidUntil_eq_some {addr : AccAddress} {paidUntil : UInt64}
    (h : circuitDepositPaidUntil s addr = some paidUntil) : (row s (.depositee addr)).isSome := by
  rw [circuitDepositPaidUntil, show s.get (getCircuitDepositeeKey addr) = row s (.depositee addr) from rfl] at h
  split at h
  · next hrow => simp [hrow]
  · cases h

end reads

/-! ## What a sequence of writes touches -/

/-- The value is of the kind its row is for. -/
def Key.Holds : Key → Value → Prop
  | .params, .params _ => True
  | .seq _, .raw b => b.length = 8
  | .code _, .codeInfo _ => True
  | .vkParam _, .vkParamInfo _ => True
  | .vkParamBytes _, .raw _ => True
  | .circuit _, .circuitInfo _ => True
  | .circuitParamRef _, .raw _ => True
  | .circuitBytes _, .raw _ => True
  | .pin _, .raw _ => True
  | .depositee _, .raw b => b.length = 8
  | .expiry _ _, .raw _ | .gc _, .raw _ | .creator _ _, .raw _ => True
  | _, _ => False

inductive Touches (P : Key → Prop) (s : Store) : Store → Prop
  | refl : Touches P s s
  | put {t : Store} {key : Key} {v : Value} : Touches P s t → P key → key.Holds v →
      Touches P s (put t key v)
  | drop {t : Store} {key : Key} : Touches P s t → P key → Touches P s (drop t key)

namespace Touches

variable {P Q : Key → Prop} {s t u : Store}

theorem trans (h : Touches P s t) (h' : Touches P t u) : Touches P s u := by
  induction h' with
  | refl => exact h
  | put _ hkey hv ih => exact ih.put hkey hv
  | drop _ hkey ih => exact ih.drop hkey

theorem mono (h : Touches P s t) (hPQ : ∀ key, P key → Q key) : Touches Q s t := by
  induction h with
  | refl => exact .refl
  | put _ hkey hv ih => exact ih.put (hPQ _ hkey) hv
  | drop _ hkey ih => exact ih.drop (hPQ _ hkey)

/-- The frame rule: rows outside `P` keep their value. -/
theorem row_eq (h : Touches P s t) {key : Key} (hkey : ¬ P key) : row t key = row s key := by
  induction h with
  | refl => rfl
  | put _ hkey' _ ih =>
    rw [row_put_of_ne, ih]
    rintro rfl
    exact hkey hkey'
  | drop _ hkey' ih =>
    rw [row_drop_of_ne, ih]
    rintro rfl
    exact hkey hkey'

theorem foldl_drop : ∀ (keys : List Key) {t : Store}, Touches P s t → (∀ key ∈ keys, P key) →
    Touches P s (keys.foldl Wasm.drop t)
  | [], _, h, _ => h
  | key :: keys, _, h, hkeys =>
    foldl_drop keys (h.drop (hkeys key (by simp))) fun key' h' => hkeys key' (by simp [h'])

end Touches

theorem row_foldl_drop (key : Key) : ∀ (keys : List Key) (s : Store),
    row (keys.foldl drop s) key = if key ∈ keys then none else row s key
  | [], s => by simp
  | key' :: keys, s => by
    rw [foldl_cons, row_foldl_drop key keys, row_drop]
    by_cases h : key' = key
    · simp [h]
    · simp [h, Ne.symm h]

/-- Every row whose key is in `D` has a name, and a value of its kind. -/
def FormedOn (D : Bytes → Prop) (s : Store) : Prop :=
  ∀ key v, D key → s.get key = some v → ∃ name : Key, key = name.encode ∧ name.Holds v

/-- Every row has a name, and a value of its kind. -/
def Formed (s : Store) : Prop := FormedOn (fun _ => True) s

theorem formed_empty : Formed .empty := by
  intro key v _ h
  simp at h

section formed

variable {D : Bytes → Prop} {s t : Store}

theorem FormedOn.put (h : FormedOn D s) {name : Key} {v : Value} (hv : name.Holds v) : FormedOn D (put s name v) := by
  intro key v' hD hget
  rw [Wasm.put, get_set] at hget
  split_ifs at hget with hkey
  · cases hget
    exact ⟨name, hkey.symm, hv⟩
  · exact h key v' hD hget

theorem FormedOn.drop (h : FormedOn D s) (name : Key) : FormedOn D (drop s name) := by
  intro key v' hD hget
  rw [Wasm.drop, get_delete] at hget
  split_ifs at hget
  exact h key v' hD hget

theorem Touches.formedOn {P : Key → Prop} (h : Touches P s t) (hs : FormedOn D s) : FormedOn D t := by
  induction h with
  | refl => exact hs
  | put _ _ hv ih => exact ih.put hv
  | drop _ _ ih => exact ih.drop _

theorem FormedOn.name (h : FormedOn D s) {b : UInt8} {key : Bytes} {v : Value} (hD : D (b :: key))
    (hget : s.get (b :: key) = some v) :
    ∃ name : Key, b :: key = name.encode ∧ name.tag = b ∧ name.Holds v := by
  obtain ⟨name, hname, hv⟩ := h _ v hD hget
  have htag : some name.tag = some b := by
    rw [← name.head_encode, ← hname]
    rfl
  exact ⟨name, hname, Option.some.inj htag, hv⟩

end formed

theorem Formed.holds (h : Formed s) (hrow : row s key = some v) : key.Holds v := by
  obtain ⟨name, hname, hv⟩ := h _ _ trivial hrow
  rwa [Key.encode_inj.mp hname]

theorem Formed.exists_code (h : Formed s) {id : UInt64} (hrow : (row s (.code id)).isSome) :
    ∃ info, row s (.code id) = some (.codeInfo info) := by
  obtain ⟨v, hv⟩ := Option.isSome_iff_exists.mp hrow
  have hkind := h.holds hv
  cases v with
  | codeInfo info => exact ⟨info, hv⟩
  | _ => exact hkind.elim

theorem Formed.exists_circuit (h : Formed s) {id : UInt64}
    (hrow : (row s (.circuit id)).isSome) : ∃ info, row s (.circuit id) = some (.circuitInfo info) := by
  obtain ⟨v, hv⟩ := Option.isSome_iff_exists.mp hrow
  have hkind := h.holds hv
  cases v with
  | circuitInfo info => exact ⟨info, hv⟩
  | _ => exact hkind.elim

/-! ## Iteration by name -/

/-- The entries of an iterator over a prefix `p` whose rows are named by `name`. -/
theorem mem_iterator_iff {α : Type} {p : Bytes} (name : α → Key) (suffix : α → Bytes)
    (hencode : ∀ a, (name a).encode = p ++ suffix a)
    (hnamed : ∀ key v, s.get (p ++ key) = some v → ∃ a, key = suffix a) {key : Bytes} :
    (key, v) ∈ s.iterator p ↔ ∃ a, key = suffix a ∧ row s (name a) = some v := by
  rw [mem_iterator]
  constructor
  · intro h
    obtain ⟨a, rfl⟩ := hnamed key v h
    exact ⟨a, rfl, by rw [row, hencode, h]⟩
  · rintro ⟨a, rfl, h⟩
    rw [← hencode]
    exact h

theorem exists_names {α : Type} {p : Bytes} (name : α → Key) {suffix : α → Bytes} (hinj : Function.Injective suffix)
    (hencode : ∀ a, (name a).encode = p ++ suffix a)
    (hnamed : ∀ key v, s.get (p ++ key) = some v → ∃ a, key = suffix a) :
    ∃ as : List α, (s.iterator p).map Prod.fst = as.map suffix ∧ as.Nodup ∧ ∀ a, a ∈ as ↔ (row s (name a)).isSome := by
  obtain ⟨as, has⟩ : (s.iterator p).map Prod.fst ∈ Set.range (List.map suffix) := by
    rw [Set.range_list_map]
    intro key hkey
    obtain ⟨⟨key, v⟩, hmem, rfl⟩ := mem_map.mp hkey
    obtain ⟨a, rfl⟩ := hnamed key v (mem_iterator.mp hmem)
    exact ⟨a, rfl⟩
  refine ⟨as, has.symm, ?_, fun a => ?_⟩
  · have hnodup := s.keys_nodup p
    rw [← has] at hnodup
    exact hnodup.of_map _
  · rw [← mem_map_of_injective hinj, has, Option.isSome_iff_exists, mem_map]
    constructor
    · rintro ⟨⟨key, v⟩, hmem, rfl⟩
      obtain ⟨a', hkey, hrow⟩ := (mem_iterator_iff name suffix hencode hnamed).mp hmem
      rw [hinj hkey]
      exact ⟨v, hrow⟩
    · rintro ⟨v, hv⟩
      exact ⟨(suffix a, v), (mem_iterator_iff name suffix hencode hnamed).mpr ⟨a, rfl, hv⟩, rfl⟩

theorem exists_ids {p : Bytes} (name : UInt64 → Key) (hencode : ∀ id, (name id).encode = p ++ be64 id)
    (hnamed : ∀ key v, s.get (p ++ key) = some v → ∃ id, key = be64 id) :
    ∃ ids : List UInt64, (s.iterator p).map Prod.fst = ids.map be64 ∧ ids.Nodup ∧
      ∀ id, id ∈ ids ↔ (row s (name id)).isSome :=
  exists_names name be64_injective hencode hnamed

/-! ## Records by id -/

section infos

variable {α : Type} {decode : Value → Option α} {s : Store} {p : Bytes} (name : UInt64 → Key)
  (hencode : ∀ id, (name id).encode = p ++ be64 id)
  (hnamed : ∀ key v, s.get (p ++ key) = some v → ∃ id, key = be64 id)
include hencode hnamed

theorem mem_infos {value : α → Value} (hdecode : ∀ v info, decode v = some info ↔ v = value info)
    {id : UInt64} {info : α} :
    (id, info) ∈ infos decode s p ↔ row s (name id) = some (value info) := by
  simp only [infos, mem_filterMap, Option.bind_eq_bind, Option.bind_eq_some_iff, Option.pure_def,
    Option.some_inj, Prod.mk.injEq, hdecode]
  constructor
  · rintro ⟨⟨key, v⟩, hmem, info', rfl, id', hid, rfl, rfl⟩
    obtain ⟨id'', rfl, hrow⟩ := (mem_iterator_iff name be64 hencode hnamed).mp hmem
    obtain rfl : id'' = id' := by simpa using hid
    exact hrow
  · intro hrow
    exact ⟨(be64 id, value info), (mem_iterator_iff name be64 hencode hnamed).mpr ⟨id, rfl, hrow⟩,
      info, rfl, id, getBE64_be64 id, rfl, rfl⟩

theorem infos_nodup : ((infos decode s p).map Prod.fst).Nodup := by
  have hkeys : (s.iterator p).Pairwise fun e e' => e.1 ≠ e'.1 :=
    pairwise_map.mp (s.keys_nodup p)
  have hids : (s.iterator p).Pairwise fun e e' => getBE64 e.1 ≠ getBE64 e'.1 := by
    refine hkeys.imp_of_mem ?_
    rintro ⟨key, v⟩ ⟨key', v'⟩ hmem hmem' hne
    obtain ⟨id, rfl, -⟩ := (mem_iterator_iff name be64 hencode hnamed).mp hmem
    obtain ⟨id', rfl, -⟩ := (mem_iterator_iff name be64 hencode hnamed).mp hmem'
    simpa using fun heq : id = id' => hne (by rw [heq])
  refine pairwise_map.mpr (hids.filterMap _ ?_)
  rintro e e' hne ⟨id, info⟩ he ⟨id', info'⟩ he' rfl
  simp only [Option.bind_eq_bind, Option.bind_eq_some_iff, Option.pure_def, Option.some_inj, Prod.mk.injEq] at he he'
  obtain ⟨-, -, x, hx, hid, -⟩ := he
  obtain ⟨-, -, x', hx', hid', -⟩ := he'
  exact hne (by rw [hx, hx', hid, hid'])

end infos

end Wasm
