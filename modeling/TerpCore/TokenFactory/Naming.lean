/-
  What the name of a factory denomination says about who made it.
-/
import TerpCore.TokenFactory.Supply

namespace TokenFactory

open Lib Outcome

variable {β : Type} {k : Keeper β} {codec : Bech32}

/-! ## Reading a name back -/

/-- A text that, if it is read as an address, is how the address is written. -/
def Canonical (codec : Bech32) (text : Bytes) : Prop :=
  ∀ addr, codec.accAddressFromBech32 text = some addr → codec.string addr = text

theorem canonical_iff {text : Bytes} {addr : AccAddress} (h : codec.accAddressFromBech32 text = some addr) :
    Canonical codec text ↔ codec.string addr = text := by
  simp [Canonical, h]

variable {sender subdenom : Bytes} {s : State β}

theorem validateBasicCreateDenom_eq_ok (h : k.validateBasicCreateDenom sender subdenom = .ok ()) :
    getTokenDenom sender subdenom = .ok (factoryDenom sender subdenom) ∧ slash ∉ sender ∧
      validDenom (factoryDenom sender subdenom) = true ∧
      ∃ addr, k.codec.accAddressFromBech32 sender = some addr := by
  obtain ⟨_, haddr, h⟩ := bind_eq_ok.mp h
  rcases hdenom : getTokenDenom sender subdenom with denom | e | _ <;> rw [hdenom] at h
  · obtain ⟨rfl, hslash, hvalid⟩ := getTokenDenom_eq_ok hdenom
    exact ⟨rfl, hslash, hvalid, Option.isSome_iff_exists.mp (require_eq_ok.mp haddr)⟩
  · cases h
  · cases h

theorem deconstructDenom_getTokenDenom (h : k.validateBasicCreateDenom sender subdenom = .ok ()) : ∃ denom creator,
      getTokenDenom sender subdenom = .ok denom ∧ deconstructDenom k.codec denom = .ok (creator, subdenom) ∧
      (creator = sender ↔ Canonical k.codec sender) := by
  obtain ⟨hdenom, hslash, hvalid, addr, haddr⟩ := validateBasicCreateDenom_eq_ok h
  exact ⟨_, k.codec.string addr, hdenom, deconstructDenom_factoryDenom hslash haddr subdenom hvalid,
    (canonical_iff haddr).symm⟩

/-! ## Creating a name again -/

theorem handle_metadata {s' : State β} {msg : Msg} (h : k.handle s msg = .ok s') {d : Bytes}
    (hd : (s.metadata.get d).isSome) : (s'.metadata.get d).isSome := by
  have hset (m : Metadata) : ((setDenomMetaData s.metadata m).get d).isSome := by
    rw [setDenomMetaData, KVStore.get_set]
    split
    · rfl
    · exact hd
  cases msg with
  | createDenom =>
    cases createDenom_took h
    exact hset _
  | mint | burn | forceTransfer =>
    obtain ⟨_, -, h⟩ := bind_eq_ok.mp h
    obtain ⟨_, -, h⟩ := bind_eq_ok.mp h
    obtain ⟨bank, -, h⟩ := bind_eq_ok.mp h
    cases h
    exact hd
  | changeAdmin =>
    obtain ⟨_, -, h⟩ := bind_eq_ok.mp h
    obtain ⟨store, -, h⟩ := bind_eq_ok.mp h
    cases h
    exact hd
  | setDenomMetadata =>
    obtain ⟨_, -, h⟩ := bind_eq_ok.mp h
    obtain ⟨_, -, h⟩ := bind_eq_ok.mp h
    obtain ⟨_, -, h⟩ := bind_eq_ok.mp h
    cases h
    exact hset _
  | updateParams =>
    obtain ⟨_, -, h⟩ := bind_eq_ok.mp h
    obtain ⟨store, -, h⟩ := bind_eq_ok.mp h
    cases h
    exact hd

theorem step_metadata {msg : Msg} {d : Bytes} (hd : (s.metadata.get d).isSome) :
    ((k.step s msg).metadata.get d).isSome :=
  orElse_elim (P := fun s => (s.metadata.get d).isSome) hd fun _ h => handle_metadata h hd

theorem run_metadata (msgs : List Msg) {d : Bytes} (hd : (s.metadata.get d).isSome) :
    ((run k.step s msgs).metadata.get d).isSome :=
  run_preserves (I := fun s => (s.metadata.get d).isSome) (fun _ _ => step_metadata) s msgs hd

theorem metadata_of_created (h : (k.handle s (.createDenom sender subdenom)).isOk = true) :
    ((k.step s (.createDenom sender subdenom)).metadata.get (factoryDenom sender subdenom)).isSome := by
  obtain ⟨s', h⟩ := isOk_iff.mp h
  rw [Keeper.step, h]
  cases createDenom_took h
  exact congrArg Option.isSome (KVStore.get_set_self ..)

theorem not_created_of_metadata (hd : (s.metadata.get (factoryDenom sender subdenom)).isSome) :
    (k.handle s (.createDenom sender subdenom)).isOk = false := by
  rw [Bool.eq_false_iff]
  intro h
  obtain ⟨s', h⟩ := isOk_iff.mp h
  cases createDenom_took h with
  | createDenom hslash hvalid haddr hnew hpaid =>
    simp [hnew] at hd

/-- In the run no account creates two denominations with the same subdenomination. -/
def OncePerSubdenom (k : Keeper β) (s : State β) (msgs : List Msg) : Prop :=
  ∀ before mid after sender sender' sub,
    msgs = before ++ .createDenom sender sub :: (mid ++ .createDenom sender' sub :: after) →
    (k.handle (run k.step s before) (.createDenom sender sub)).isOk = true →
    (k.handle (run k.step s (before ++ .createDenom sender sub :: mid)) (.createDenom sender' sub)).isOk = true →
    k.codec.accAddressFromBech32 sender ≠ k.codec.accAddressFromBech32 sender'

theorem created_once {before mid : List Msg} {sender' sub : Bytes}
    (h : (k.handle (run k.step s before) (.createDenom sender sub)).isOk = true)
    (h' : (k.handle (run k.step s (before ++ .createDenom sender sub :: mid)) (.createDenom sender' sub)).isOk = true) :
    sender ≠ sender' := by
  rintro rfl
  simp [run_append, run_cons, not_created_of_metadata (run_metadata mid (metadata_of_created h))] at h'

theorem read_of_created {sub : Bytes} (h : (k.handle s (.createDenom sender sub)).isOk = true) :
    ∃ addr, k.codec.accAddressFromBech32 sender = some addr := by
  obtain ⟨s', h⟩ := isOk_iff.mp h
  cases createDenom_took h with
  | createDenom hslash hvalid haddr => exact ⟨_, haddr⟩

theorem oncePerSubdenom_of_canonical {msgs : List Msg}
    (hcanonical : ∀ sender sub, .createDenom sender sub ∈ msgs → Canonical k.codec sender) :
    OncePerSubdenom k s msgs := by
  rintro before mid after sender sender' sub rfl h h' haccount
  obtain ⟨addr, haddr⟩ := read_of_created h
  have hsender := hcanonical sender sub (by simp) addr haddr
  have hsender' := hcanonical sender' sub (by simp) addr (haccount.symm.trans haddr)
  exact created_once h h' (hsender.symm.trans hsender')

/-- **Names of factory denominations**: a name is read back, and with the sender of the message if and only if
that is spelled as the address is written; it belongs to one account and one subdenomination; and in a run
whose senders are spelled so no account creates two denominations with the same subdenomination. -/
theorem names_read_back_iff (k : Keeper β) :
    (∀ sender sub, k.validateBasicCreateDenom sender sub = .ok () → ∃ denom creator,
      getTokenDenom sender sub = .ok denom ∧ deconstructDenom k.codec denom = .ok (creator, sub) ∧
      (creator = sender ↔ Canonical k.codec sender)) ∧
    (∀ sender sub sender' sub', k.validateBasicCreateDenom sender sub = .ok () →
      k.validateBasicCreateDenom sender' sub' = .ok () → getTokenDenom sender sub = getTokenDenom sender' sub' →
      k.codec.accAddressFromBech32 sender = k.codec.accAddressFromBech32 sender' ∧ sub = sub') ∧
    (∀ s msgs, (∀ sender sub, .createDenom sender sub ∈ msgs → Canonical k.codec sender) →
      OncePerSubdenom k s msgs) := by
  refine ⟨fun sender sub => deconstructDenom_getTokenDenom, ?_, fun s msgs => oncePerSubdenom_of_canonical⟩
  intro sender sub sender' sub' h h' heq
  obtain ⟨hdenom, hslash, -⟩ := validateBasicCreateDenom_eq_ok h
  obtain ⟨hdenom', hslash', -⟩ := validateBasicCreateDenom_eq_ok h'
  rw [hdenom, hdenom'] at heq
  obtain ⟨rfl, rfl⟩ := factoryDenom_inj hslash hslash' (ok.inj heq)
  exact ⟨rfl, rfl⟩

/-! ## Two spellings -/

/-- `strings.ToUpper`, on ASCII. -/
def toUpper (text : Bytes) : Bytes := text.map fun c => if 0x61 ≤ c ∧ c ≤ 0x7a then c - 0x20 else c

/-- Addresses are written without upper-case letters, and read in upper case too. -/
structure TwoSpellings (codec : Bech32) : Prop where
  written : ∀ addr, ∀ c ∈ codec.string addr, ¬ (0x41 ≤ c ∧ c ≤ 0x5a)
  read : ∀ text addr, codec.accAddressFromBech32 text = some addr →
    codec.accAddressFromBech32 (toUpper (codec.string addr)) = some addr

namespace Sample

/-- The letters from `a` to `p`, as the digits of a byte. -/
def letters (b : UInt8) : Bytes := [0x61 + b / 16, 0x61 + b % 16]

def write (bytes : Bytes) : Bytes := bytes.flatMap letters

/-- The value of a digit in either case. -/
def digit (c : UInt8) : UInt8 := if 0x61 ≤ c then c - 0x61 else c - 0x41

def read : Bytes → Bytes
  | high :: low :: rest => (digit high * 16 + digit low) :: read rest
  | _ => []

theorem letters_facts (b : UInt8) : (∀ c ∈ letters b, ¬ (0x41 ≤ c ∧ c ≤ 0x5a)) ∧
    read (letters b) = [b] ∧ read (toUpper (letters b)) = [b] := by
  have hall : ∀ n < 256, (letters (.ofNat n)).all (fun c => ¬ (0x41 ≤ c ∧ c ≤ 0x5a)) = true ∧
      read (letters (.ofNat n)) = [.ofNat n] ∧ read (toUpper (letters (.ofNat n))) = [.ofNat n] := by
    decide +kernel
  obtain ⟨hlower, hread⟩ := hall b.toNat b.toNat_lt
  rw [UInt8.ofNat_toNat] at hlower hread
  exact ⟨fun c hc => of_decide_eq_true (List.all_eq_true.mp hlower c hc), hread⟩

theorem read_append {high low b : UInt8} (h : read [high, low] = [b]) (rest : Bytes) :
    read ([high, low] ++ rest) = b :: read rest :=
  congrArg (· :: read rest) (List.cons.inj h).1

theorem read_write (bytes : Bytes) : read (write bytes) = bytes := by
  induction bytes with
  | nil => rfl
  | cons b bytes ih => exact (read_append (letters_facts b).2.1 (write bytes)).trans (congrArg (b :: ·) ih)

theorem read_toUpper_write (bytes : Bytes) : read (toUpper (write bytes)) = bytes := by
  induction bytes with
  | nil => rfl
  | cons b bytes ih =>
    exact (read_append (letters_facts b).2.2 (toUpper (write bytes))).trans (congrArg (b :: ·) ih)

/-- Addresses in letters, of one case. -/
def readLetters (text : Bytes) : Option AccAddress :=
  if text = write (read text) ∨ text = toUpper (write (read text)) then AccAddress.ofVerified (read text) else none

theorem readLetters_self {text : Bytes} {addr : AccAddress} (h : readLetters text = some addr) :
    AccAddress.ofVerified addr.bytes = some addr := by
  unfold readLetters at h
  split_ifs at h
  exact AccAddress.ofVerified_self h

/-- Addresses are written in lower case. -/
def lettered : Bech32 where
  string addr := write addr.bytes
  accAddressFromBech32 := readLetters
  reads_string h := by rw [readLetters, read_write, if_pos (.inl rfl), readLetters_self h]

theorem twoSpellings : TwoSpellings lettered where
  written addr c hc := by
    obtain ⟨b, -, hb⟩ := List.mem_flatMap.mp hc
    exact (letters_facts b).1 c hb
  read text addr h := by
    change readLetters (toUpper (write addr.bytes)) = some addr
    rw [readLetters, read_toUpper_write, if_pos (.inr rfl), readLetters_self h]

def letteredKeeper : Keeper Bank := { keeper with codec := lettered }

/-- An account of 20 bytes, in lower case. -/
def lower : Bytes := write (List.replicate 20 0x61)

/-- The account in upper case. -/
def upper : Bytes := toUpper lower

end Sample

open Sample in
/-- The same account creates gold twice. -/
theorem gold_created_twice :
    TwoSpellings lettered ∧ lettered.accAddressFromBech32 upper = lettered.accAddressFromBech32 lower ∧
      letteredKeeper.validateBasicCreateDenom upper (ascii "gold") = .ok () ∧
      deconstructDenom lettered (factoryDenom upper (ascii "gold")) = .ok (lower, ascii "gold") ∧ lower ≠ upper ∧
      ¬ OncePerSubdenom letteredKeeper start
        [.createDenom lower (ascii "gold"), .createDenom upper (ascii "gold")] := by
  refine ⟨twoSpellings, by decide +kernel, by decide +kernel, by decide +kernel, by decide, fun honce => ?_⟩
  exact honce [] [] [] lower upper (ascii "gold") rfl (by decide +kernel) (by decide +kernel) (by decide +kernel)

open Sample in
/-- In lower case a name with slashes is read back, and a second gold is refused. -/
theorem lower_read_back : (∃ denom creator, getTokenDenom lower (ascii "gold//bar") = .ok denom ∧
      deconstructDenom lettered denom = .ok (creator, ascii "gold//bar") ∧ creator = lower) ∧
      OncePerSubdenom letteredKeeper start [.createDenom lower (ascii "gold"), .createDenom lower (ascii "gold")] := by
  have hlower : Canonical lettered lower := fun addr h => by
    obtain rfl : (⟨List.replicate 20 0x61, by simp, by simp⟩ : AccAddress) = addr :=
      Option.some.inj ((show lettered.accAddressFromBech32 lower = _ by decide +kernel).symm.trans h)
    rfl
  obtain ⟨hread, -, honce⟩ := names_read_back_iff letteredKeeper
  constructor
  · obtain ⟨denom, creator, hdenom, hcreator, hiff⟩ := hread lower (ascii "gold//bar") (by decide +kernel)
    exact ⟨denom, creator, hdenom, hcreator, hiff.mpr hlower⟩
  · refine honce start _ fun sender sub hmem => ?_
    simp only [List.mem_cons, Msg.createDenom.injEq, List.not_mem_nil, or_false, or_self] at hmem
    exact hmem.1 ▸ hlower

end TokenFactory
