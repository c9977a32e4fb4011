/-
  Account addresses of the Cosmos SDK: one to 255 bytes, and their encoding with a leading length byte,
  which keeps an address apart from what follows it in a store key.  Their text form is only assumed to read
  back the addresses that it reads at all.
-/
import TerpCore.Lib.Bytes

namespace Lib

open List

/-- The bytes of an address, of a length that `address.MustLengthPrefix` takes. -/
structure AccAddress where
  bytes : Bytes
  pos : 0 < bytes.length
  le : bytes.length ≤ 255
  deriving DecidableEq

namespace AccAddress

@[ext] theorem ext {a b : AccAddress} (h : a.bytes = b.bytes) : a = b := by
  cases a
  cases h
  rfl

/-- The address with the given bytes. -/
def ofBytes (b : Bytes) : Option AccAddress :=
  if h : 0 < b.length ∧ b.length ≤ 255 then some ⟨b, h.1, h.2⟩ else none

/-- `wasmtypes.VerifyAddressLen`: an account has 20 bytes, and a contract has 32. -/
def ofVerified (b : Bytes) : Option AccAddress := if b.length = 20 ∨ b.length = 32 then ofBytes b else none

/-- `address.MustLengthPrefix`. -/
def lengthPrefixed (a : AccAddress) : Bytes := UInt8.ofNat a.bytes.length :: a.bytes

/-- Reads an address off the front of a key; the rest of the key is dropped. -/
def parseLengthPrefixed : Bytes → Option AccAddress
  | [] => none
  | n :: rest =>
    if n.toNat = 0 ∨ rest.length < n.toNat then none else ofBytes (rest.take n.toNat)

theorem toNat_length (a : AccAddress) : (UInt8.ofNat a.bytes.length).toNat = a.bytes.length := by
  have hle := a.le
  rw [UInt8.toNat_ofNat']
  omega

theorem ofBytes_bytes (a : AccAddress) : ofBytes a.bytes = some a := by
  rw [ofBytes, dif_pos ⟨a.pos, a.le⟩]

theorem ofVerified_self {b : Bytes} {a : AccAddress} (h : ofVerified b = some a) : ofVerified a.bytes = some a := by
  have hbytes : a.bytes = b := by
    unfold ofVerified ofBytes at h
    split_ifs at h
    rw [← Option.some.inj h]
  rw [hbytes, h]

theorem parseLengthPrefixed_append (a : AccAddress) (rest : Bytes) :
    parseLengthPrefixed (a.lengthPrefixed ++ rest) = some a := by
  have hpos := a.pos
  have htake : (a.bytes ++ rest).take a.bytes.length = a.bytes := by simp
  have hlen : ¬ (a.bytes.length = 0 ∨ (a.bytes ++ rest).length < a.bytes.length) := by
    rw [length_append]
    omega
  rw [lengthPrefixed, cons_append, parseLengthPrefixed, toNat_length, if_neg hlen, htake, ofBytes_bytes]

@[simp] theorem parseLengthPrefixed_lengthPrefixed (a : AccAddress) :
    parseLengthPrefixed a.lengthPrefixed = some a := by
  simpa using parseLengthPrefixed_append a []

theorem lengthPrefixed_append_inj {a b : AccAddress} {x y : Bytes} :
    a.lengthPrefixed ++ x = b.lengthPrefixed ++ y ↔ a = b ∧ x = y := by
  constructor
  · intro h
    have hab : some a = some b := by
      rw [← parseLengthPrefixed_append a x, ← parseLengthPrefixed_append b y, h]
    cases hab
    exact ⟨rfl, append_cancel_left h⟩
  · rintro ⟨rfl, rfl⟩
    rfl

theorem lengthPrefixed_inj {a b : AccAddress} : a.lengthPrefixed = b.lengthPrefixed ↔ a = b := by
  constructor
  · intro h
    rw [← append_nil a.lengthPrefixed, ← append_nil b.lengthPrefixed] at h
    exact (lengthPrefixed_append_inj.mp h).1
  · rintro rfl
    rfl

end AccAddress

/-- The text form of addresses.  An address may be read from several texts; the one it is written as is
among them. -/
structure Bech32 where
  /-- `AccAddress.String` -/
  string : AccAddress → Bytes
  /-- `sdk.AccAddressFromBech32`; `none` is an error -/
  accAddressFromBech32 : Bytes → Option AccAddress
  reads_string : ∀ {text a}, accAddressFromBech32 text = some a → accAddressFromBech32 (string a) = some a

/-- The text form of any bytes, also of those that are no address: different bytes have different texts. -/
structure Bech32Text extends Bech32 where
  /-- `AccAddress(bytes).String()` -/
  text : Bytes → Bytes
  text_bytes : ∀ a, text a.bytes = string a
  text_injective : Function.Injective text

/-- Addresses with a zero in front, which are also read with a one. -/
def Bech32Text.tagged : Bech32Text where
  string a := 0 :: a.bytes
  accAddressFromBech32
    | 0 :: b | 1 :: b => AccAddress.ofVerified b
    | _ => none
  reads_string {text a} h := by
    split at h
    · exact AccAddress.ofVerified_self h
    · exact AccAddress.ofVerified_self h
    · cases h
  text b := 0 :: b
  text_bytes _ := rfl
  text_injective := cons_injective

end Lib
