/-
  The hand-written codec of the deposit query.

  `int` has 64 bits.  What an error leaves in the message is left out.
-/
import TerpCore.Lib.Slice
import TerpCore.Lib.Varint
import TerpCore.Wasm.Types

namespace Wasm

open Lib Outcome List

structure QueryCircuitDepositRequest where
  address : Bytes := []
  deriving DecidableEq

structure QueryCircuitDepositResponse where
  address : Bytes := []
  paidUntilUnix : Int64 := 0
  covered : Bool := false
  deriving DecidableEq

def unexpectedEOF : Err := .errorf "unexpected EOF"

/-! ## Writing -/

def lowByte (x : BitVec 64) : UInt8 := UInt8.ofBitVec (x.setWidth 8)

def sovDeposit (x : BitVec 64) : ℕ := (len64 (x ||| 1) + 6) / 7

/-- The loop of `encodeVarintDeposit`. -/
def encodeVarintLoop (dAtA : Bytes) (offset : ℤ) (v : BitVec 64) : Outcome Err Bytes :=
  if 128 ≤ v.toNat then do
    let dAtA ← .ofOption (assign dAtA offset (lowByte (v &&& 0x7f ||| 0x80)))
    encodeVarintLoop dAtA (offset + 1) (v >>> 7)
  else .ofOption (assign dAtA offset (lowByte v))
termination_by v.toNat
decreasing_by
  rw [BitVec.toNat_ushiftRight, Nat.shiftRight_eq_div_pow]
  omega

/-- The buffer, and where the number begins in it. -/
def encodeVarintDeposit (dAtA : Bytes) (offset : ℤ) (v : BitVec 64) : Outcome Err (Bytes × ℤ) := do
  let base := offset - sovDeposit v
  let dAtA ← encodeVarintLoop dAtA base v
  return (dAtA, base)

def putByte (b : UInt8) (dAtA : Bytes) (i : ℤ) : Outcome Err (Bytes × ℤ) := do
  let dAtA ← .ofOption (assign dAtA (i - 1) b)
  return (dAtA, i - 1)

/-- `i -= len(src); copy(dAtA[i:], src)` -/
def putBytes (src dAtA : Bytes) (i : ℤ) : Outcome Err (Bytes × ℤ) := do
  let dAtA ← .ofOption (copyAt dAtA (i - src.length) src)
  return (dAtA, i - src.length)

def putAddress (address dAtA : Bytes) (i : ℤ) : Outcome Err (Bytes × ℤ) :=
  if 0 < address.length then do
    let (dAtA, i) ← putBytes address dAtA i
    let (dAtA, i) ← encodeVarintDeposit dAtA i (BitVec.ofNat 64 address.length)
    putByte 0x0a dAtA i
  else return (dAtA, i)

def putPaidUntilUnix (paidUntilUnix : Int64) (dAtA : Bytes) (i : ℤ) : Outcome Err (Bytes × ℤ) :=
  if paidUntilUnix ≠ 0 then do
    let (dAtA, i) ← encodeVarintDeposit dAtA i paidUntilUnix.toBitVec
    putByte 0x10 dAtA i
  else return (dAtA, i)

def putCovered (covered : Bool) (dAtA : Bytes) (i : ℤ) : Outcome Err (Bytes × ℤ) :=
  if covered then do
    let (dAtA, i) ← putByte (if covered then 1 else 0) dAtA i
    putByte 0x18 dAtA i
  else return (dAtA, i)

def addressSize (address : Bytes) : ℕ :=
  if 0 < address.length then 1 + address.length + sovDeposit (BitVec.ofNat 64 address.length) else 0

namespace QueryCircuitDepositRequest

variable (m : QueryCircuitDepositRequest)

def size : ℕ := addressSize m.address

/-- What `Marshal` writes to its buffer, and where it begins. -/
def marshalInto (dAtA : Bytes) : Outcome Err (Bytes × ℤ) := putAddress m.address dAtA dAtA.length

def marshal : Outcome Err Bytes := do
  let (dAtA, i) ← m.marshalInto (List.replicate m.size 0)
  .ofOption (slice dAtA i dAtA.length)

end QueryCircuitDepositRequest

namespace QueryCircuitDepositResponse

variable (m : QueryCircuitDepositResponse)

def size : ℕ :=
  addressSize m.address + (if m.paidUntilUnix ≠ 0 then 1 + sovDeposit m.paidUntilUnix.toBitVec else 0) +
    if m.covered then 2 else 0

def marshalInto (dAtA : Bytes) : Outcome Err (Bytes × ℤ) := do
  let (dAtA, i) ← putCovered m.covered dAtA dAtA.length
  let (dAtA, i) ← putPaidUntilUnix m.paidUntilUnix dAtA i
  putAddress m.address dAtA i

def marshal : Outcome Err Bytes := do
  let (dAtA, i) ← m.marshalInto (List.replicate m.size 0)
  .ofOption (slice dAtA i dAtA.length)

end QueryCircuitDepositResponse

/-! ## Reading -/

/-- The loop that reads a number into `v`. -/
def varintLoop (dAtA : Bytes) (v : BitVec 64) (shift : ℕ) (iNdEx : ℤ) : Outcome Err (BitVec 64 × ℤ) :=
  if dAtA.length ≤ iNdEx then .error unexpectedEOF
  else
    match index dAtA iNdEx with
    | none => .panicked
    | some b =>
      if b < 0x80 then .ok (v ||| varintGroup b shift, iNdEx + 1)
      else varintLoop dAtA (v ||| varintGroup b shift) ((shift + 7) % 2 ^ 64) (iNdEx + 1)
termination_by (dAtA.length - iNdEx).toNat
decreasing_by omega

def fieldNumber (wire : BitVec 64) : BitVec 32 := (wire >>> 3).setWidth 32

def addInt (a b : ℤ) : ℤ := (a + b).bmod (2 ^ 64)

def readAddress (dAtA : Bytes) (iNdEx : ℤ) : Outcome Err (Bytes × ℤ) := do
  let (sl, iNdEx) ← varintLoop dAtA 0 0 iNdEx
  let address ← .ofOption (slice dAtA iNdEx (addInt iNdEx sl.toInt))
  return (address, addInt iNdEx sl.toInt)

/-- One round of the loop over the fields, after the tag. -/
def QueryCircuitDepositRequest.readValue (m : QueryCircuitDepositRequest) (dAtA : Bytes) (iNdEx : ℤ)
    (wire : BitVec 64) : Outcome Err (QueryCircuitDepositRequest × ℤ) :=
  if fieldNumber wire ≠ 1 then .error unexpectedEOF
  else do
    let (address, iNdEx) ← readAddress dAtA iNdEx
    return ({ m with address := address }, iNdEx)

def QueryCircuitDepositResponse.readValue (m : QueryCircuitDepositResponse) (dAtA : Bytes) (iNdEx : ℤ)
    (wire : BitVec 64) : Outcome Err (QueryCircuitDepositResponse × ℤ) :=
  if fieldNumber wire = 1 then do
    let (address, iNdEx) ← readAddress dAtA iNdEx
    return ({ m with address := address }, iNdEx)
  else if fieldNumber wire = 2 then do
    -- the bits are added to those of the field
    let (v, iNdEx) ← varintLoop dAtA m.paidUntilUnix.toBitVec 0 iNdEx
    return ({ m with paidUntilUnix := Int64.ofBitVec v }, iNdEx)
  else if fieldNumber wire = 3 then do
    let (v, iNdEx) ← varintLoop dAtA 0 0 iNdEx
    return ({ m with covered := v != 0 }, iNdEx)
  else .error unexpectedEOF

def readField {μ : Type} (readValue : μ → Bytes → ℤ → BitVec 64 → Outcome Err (μ × ℤ)) (dAtA : Bytes) (m : μ)
    (iNdEx : ℤ) : Outcome Err (μ × ℤ) := do
  let (wire, iNdEx) ← varintLoop dAtA 0 0 iNdEx
  readValue m dAtA iNdEx wire

/-! ### Progress -/

theorem varintLoop_lt (dAtA : Bytes) (v : BitVec 64) (shift : ℕ) (i : ℤ) {r : BitVec 64 × ℤ} :
    varintLoop dAtA v shift i = .ok r → i < r.2 := by
  induction v, shift, i using varintLoop.induct dAtA with
  | case1 v shift i hend =>
    intro h
    rw [varintLoop, if_pos hend] at h
    cases h
  | case2 v shift i hin hnone =>
    intro h
    simp [varintLoop, if_neg hin, hnone] at h
  | case3 v shift i hin b hb hlast =>
    intro h
    rw [varintLoop, if_neg hin, hb] at h
    simp only [hlast, if_true, ok.injEq] at h
    rw [← h]
    exact lt_add_one i
  | case4 v shift i hin b hb hmore ih =>
    intro h
    rw [varintLoop, if_neg hin, hb] at h
    simp only [hmore] at h
    have hlt := ih h
    omega

theorem readAddress_lt {dAtA : Bytes} {i : ℤ} {r : Bytes × ℤ} (h : readAddress dAtA i = .ok r) : i < r.2 := by
  obtain ⟨⟨sl, j⟩, hsl, h⟩ := bind_eq_ok.mp h
  obtain ⟨address, hslice, h⟩ := bind_eq_ok.mp h
  have hlt : i < j := varintLoop_lt _ _ _ _ hsl
  cases h
  rw [ofOption_eq_ok, slice] at hslice
  split_ifs at hslice with hbounds
  omega

/-- How the fields of a message are read; none moves back. -/
structure Decoder (μ : Type) where
  readValue : μ → Bytes → ℤ → BitVec 64 → Outcome Err (μ × ℤ)
  progress : ∀ {m dAtA i wire r}, readValue m dAtA i wire = .ok r → i < r.2

theorem Decoder.readField_lt {μ : Type} (d : Decoder μ) {dAtA : Bytes} {m : μ} {i : ℤ} {r : μ × ℤ}
    (h : readField d.readValue dAtA m i = .ok r) : i < r.2 := by
  obtain ⟨⟨wire, j⟩, hwire, h⟩ := bind_eq_ok.mp h
  exact (varintLoop_lt _ _ _ _ hwire).trans (d.progress h)

/-- The loop over the fields, up to the end of the bytes. -/
def Decoder.unmarshal {μ : Type} (d : Decoder μ) (dAtA : Bytes) (m : μ) (iNdEx : ℤ) : Outcome Err μ :=
  if iNdEx < dAtA.length then
    match _h : readField d.readValue dAtA m iNdEx with
    | .ok r => d.unmarshal dAtA r.1 r.2
    | .error e => .error e
    | .panicked => .panicked
  else .ok m
termination_by (dAtA.length - iNdEx).toNat
decreasing_by
  have := d.readField_lt _h
  omega

def QueryCircuitDepositRequest.decoder : Decoder QueryCircuitDepositRequest where
  readValue := readValue
  progress := by
    intro m dAtA i wire r h
    unfold readValue at h
    split_ifs at h
    obtain ⟨⟨address, n⟩, haddress, h⟩ := bind_eq_ok.mp h
    cases h
    exact readAddress_lt haddress

def QueryCircuitDepositResponse.decoder : Decoder QueryCircuitDepositResponse where
  readValue := readValue
  progress := by
    intro m dAtA i wire r h
    unfold readValue at h
    split_ifs at h
    · obtain ⟨⟨address, n⟩, haddress, h⟩ := bind_eq_ok.mp h
      cases h
      exact readAddress_lt haddress
    · obtain ⟨⟨v, n⟩, hv, h⟩ := bind_eq_ok.mp h
      cases h
      exact varintLoop_lt _ _ _ _ hv
    · obtain ⟨⟨v, n⟩, hv, h⟩ := bind_eq_ok.mp h
      cases h
      exact varintLoop_lt _ _ _ _ hv

def QueryCircuitDepositRequest.unmarshal (m : QueryCircuitDepositRequest) (dAtA : Bytes) :
    Outcome Err QueryCircuitDepositRequest := decoder.unmarshal dAtA m 0

def QueryCircuitDepositResponse.unmarshal (m : QueryCircuitDepositResponse) (dAtA : Bytes) :
    Outcome Err QueryCircuitDepositResponse := decoder.unmarshal dAtA m 0

/-! ## What is written -/

section writing

theorem lowByte_eq {v : BitVec 64} : lowByte v = UInt8.ofNat v.toNat := by
  refine UInt8.toNat_inj.mp ?_
  rw [UInt8.toNat_ofNat', lowByte, UInt8.toNat_ofBitVec, BitVec.toNat_setWidth]

theorem lowByte_group (v : BitVec 64) : lowByte (v &&& 0x7f ||| 0x80) = UInt8.ofNat (v.toNat % 128 + 128) := by
  have hor : (v &&& 0x7f ||| 0x80).toNat = v.toNat % 128 + 128 := by
    have hand : (v &&& 0x7f).toNat = v.toNat % 2 ^ 7 := by
      exact Nat.and_two_pow_sub_one_eq_mod v.toNat 7
    rw [BitVec.toNat_or, hand]
    have hadd := Nat.two_pow_add_eq_or_of_lt (Nat.mod_lt v.toNat (show 0 < 2 ^ 7 by decide)) 1
    rw [Nat.or_comm]
    exact hadd.symm.trans (Nat.add_comm ..)
  rw [lowByte_eq, hor]

def addressField (address : Bytes) : Bytes :=
  if 0 < address.length then
    [0x0a] ++ varintBytes (BitVec.ofNat 64 address.length).toNat ++ address
  else []

def paidUntilField (paidUntilUnix : Int64) : Bytes :=
  if paidUntilUnix ≠ 0 then [0x10] ++ varintBytes paidUntilUnix.toBitVec.toNat else []

def coveredField (covered : Bool) : Bytes := if covered then [0x18, 1] else []

/-- A writer that fills the room before its place with `bs`, whatever was there. -/
def Puts (w : Bytes → ℤ → Outcome Err (Bytes × ℤ)) (bs : Bytes) : Prop :=
  ∀ pre hole suf : Bytes, hole.length = bs.length →
    w (pre ++ (hole ++ suf)) (pre.length + hole.length) = .ok (pre ++ (bs ++ suf), pre.length)

namespace Puts

variable {w w' : Bytes → ℤ → Outcome Err (Bytes × ℤ)} {bs bs' : Bytes}

theorem nil : Puts (fun dAtA i => .ok (dAtA, i)) [] := by
  intro pre hole suf h
  rw [eq_nil_of_length_eq_zero h]
  simp

theorem andThen (h : Puts w bs) (h' : Puts w' bs') :
    Puts (fun dAtA i => w dAtA i >>= fun r => w' r.1 r.2) (bs' ++ bs) := by
  intro pre hole suf hlen
  rw [length_append] at hlen
  -- the second one fills the front of the hole
  have hfront : (hole.take bs'.length).length = bs'.length := length_take_of_le (by omega)
  have hback : (hole.drop bs'.length).length = bs.length := by
    rw [length_drop]
    omega
  have hfirst := h (pre ++ hole.take bs'.length) (hole.drop bs'.length) suf hback
  have hsecond := h' pre (hole.take bs'.length) (bs ++ suf) hfront
  have hbuffer : pre ++ (hole ++ suf) = pre ++ hole.take bs'.length ++ (hole.drop bs'.length ++ suf) := by
    rw [append_assoc, ← append_assoc (hole.take _), take_append_drop]
  have hplace : (pre.length + hole.length : ℤ) =
      (pre ++ hole.take bs'.length).length + (hole.drop bs'.length).length := by
    rw [length_append]
    omega
  dsimp only
  rw [hbuffer, hplace, hfirst, ok_bind]
  rw [append_assoc, length_append, Nat.cast_add, hsecond, append_assoc]

theorem putByte (b : UInt8) : Puts (putByte b) [b] := by
  intro pre hole suf hlen
  obtain ⟨a, rfl⟩ := length_eq_one_iff.mp hlen
  have hplace : (pre.length + ([a] : Bytes).length : ℤ) - 1 = pre.length := by simp
  rw [Wasm.putByte, hplace, singleton_append, assign_append]
  rfl

theorem encodeVarintLoop (v : BitVec 64) : ∀ pre hole suf : Bytes, hole.length = (varintBytes v.toNat).length →
      encodeVarintLoop (pre ++ (hole ++ suf)) pre.length v = .ok (pre ++ (varintBytes v.toNat ++ suf)) := by
  induction hn : v.toNat using varintBytes.induct generalizing v with
  | case1 n hlt =>
    intro pre hole suf hlen
    rw [varintBytes, if_pos hlt] at hlen ⊢
    obtain ⟨a, rfl⟩ := length_eq_one_iff.mp hlen
    rw [Wasm.encodeVarintLoop, if_neg (by omega), singleton_append, assign_append, lowByte_eq, hn]
    rfl
  | case2 n hge ih =>
    intro pre hole suf hlen
    rw [varintBytes, if_neg hge] at hlen ⊢
    have hshift : (v >>> 7).toNat = n / 128 := by
      rw [BitVec.toNat_ushiftRight, Nat.shiftRight_eq_div_pow, hn]
    cases hole with
    | nil => cases hlen
    | cons a hole =>
      have hrest := ih (v >>> 7) hshift (pre ++ [UInt8.ofNat (n % 128 + 128)]) hole suf (Nat.succ.inj hlen)
      rw [length_append, append_assoc, append_assoc] at hrest
      rw [Wasm.encodeVarintLoop, if_pos (by omega), cons_append, assign_append, lowByte_group, hn]
      exact hrest

theorem encodeVarintDeposit (v : BitVec 64) :
    Puts (fun dAtA i => encodeVarintDeposit dAtA i v) (varintBytes v.toNat) := by
  intro pre hole suf hlen
  have hsov : sovDeposit v = (varintBytes v.toNat).length := (length_varintBytes v).symm
  have hbase : (pre.length + hole.length : ℤ) - sovDeposit v = pre.length := by
    omega
  show Wasm.encodeVarintDeposit _ _ v = _
  rw [Wasm.encodeVarintDeposit, hbase, encodeVarintLoop v pre hole suf hlen]
  rfl

theorem putBytes (src : Bytes) : Puts (putBytes src) src := by
  intro pre hole suf hlen
  have hplace : (pre.length + hole.length : ℤ) - src.length = pre.length := by omega
  rw [Wasm.putBytes, hplace, copyAt_append hlen]
  rfl

theorem putAddress (address : Bytes) : Puts (putAddress address) (addressField address) := by
  by_cases hpos : 0 < address.length
  · have hput := (putBytes address).andThen
      ((encodeVarintDeposit (BitVec.ofNat 64 address.length)).andThen (putByte 0x0a))
    intro pre hole suf hlen
    rw [addressField, if_pos hpos] at hlen ⊢
    rw [Wasm.putAddress, if_pos hpos]
    exact hput pre hole suf hlen
  · intro pre hole suf hlen
    rw [addressField, if_neg hpos] at hlen ⊢
    rw [Wasm.putAddress, if_neg hpos]
    exact nil pre hole suf hlen

theorem putPaidUntilUnix (paidUntilUnix : Int64) :
    Puts (putPaidUntilUnix paidUntilUnix) (paidUntilField paidUntilUnix) := by
  by_cases hne : paidUntilUnix ≠ 0
  · have hput := (encodeVarintDeposit paidUntilUnix.toBitVec).andThen (putByte 0x10)
    intro pre hole suf hlen
    rw [paidUntilField, if_pos hne] at hlen ⊢
    rw [Wasm.putPaidUntilUnix, if_pos hne]
    exact hput pre hole suf hlen
  · intro pre hole suf hlen
    rw [paidUntilField, if_neg hne] at hlen ⊢
    rw [Wasm.putPaidUntilUnix, if_neg hne]
    exact nil pre hole suf hlen

theorem putCovered (covered : Bool) : Puts (putCovered covered) (coveredField covered) := by
  cases covered with
  | true => exact (putByte 1).andThen (putByte 0x18)
  | false => exact nil

theorem whole (h : Puts w bs) {dAtA : Bytes} (hlen : dAtA.length = bs.length) : w dAtA dAtA.length = .ok (bs, 0) := by
  have hput := h [] dAtA [] hlen
  simpa using hput

end Puts

theorem length_addressField (address : Bytes) : (addressField address).length = addressSize address := by
  rw [addressField, addressSize, sovDeposit, ← length_varintBytes]
  split_ifs
  · simp only [length_append, length_singleton]
    omega
  · rfl

theorem length_paidUntilField (paidUntilUnix : Int64) : (paidUntilField paidUntilUnix).length =
    if paidUntilUnix ≠ 0 then 1 + sovDeposit paidUntilUnix.toBitVec else 0 := by
  rw [paidUntilField, sovDeposit, ← length_varintBytes]
  split_ifs
  · rw [length_append, length_singleton]
  · rfl

def QueryCircuitDepositRequest.encode (m : QueryCircuitDepositRequest) : Bytes := addressField m.address

def QueryCircuitDepositResponse.encode (m : QueryCircuitDepositResponse) : Bytes :=
  addressField m.address ++ (paidUntilField m.paidUntilUnix ++ coveredField m.covered)

theorem QueryCircuitDepositRequest.length_encode (m : QueryCircuitDepositRequest) : m.encode.length = m.size :=
  length_addressField m.address

theorem QueryCircuitDepositResponse.length_encode (m : QueryCircuitDepositResponse) : m.encode.length = m.size := by
  have hcovered : (coveredField m.covered).length = if m.covered then 2 else 0 := by
    cases m.covered with
    | true | false => rfl
  rw [encode, length_append, length_append, length_addressField, length_paidUntilField, hcovered, size, Nat.add_assoc]

theorem QueryCircuitDepositRequest.marshalInto_eq {m : QueryCircuitDepositRequest} {dAtA : Bytes}
    (h : dAtA.length = m.size) : m.marshalInto dAtA = .ok (m.encode, 0) :=
  (Puts.putAddress m.address).whole (h.trans m.length_encode.symm)

theorem QueryCircuitDepositResponse.marshalInto_eq {m : QueryCircuitDepositResponse} {dAtA : Bytes}
    (h : dAtA.length = m.size) : m.marshalInto dAtA = .ok (m.encode, 0) := by
  have hput := (Puts.putCovered m.covered).andThen
    ((Puts.putPaidUntilUnix m.paidUntilUnix).andThen (Puts.putAddress m.address))
  rw [append_assoc] at hput
  exact hput.whole (h.trans m.length_encode.symm)

end writing

end Wasm
