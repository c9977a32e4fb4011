/-
  The store keys of the wasm module.

  The second part names the rows of the store (`Key`): distinct names have distinct keys.
-/
import TerpCore.Lib.Address
import TerpCore.Lib.KVStore

namespace Wasm

open Lib List

/-! ## Keys -/

def codeKeyPrefix : Bytes := [0x01]
def contractKeyPrefix : Bytes := [0x02]
def sequenceKeyPrefix : Bytes := [0x04]
def pinnedCodeIndexPrefix : Bytes := [0x07]
def paramsKey : Bytes := [0x10]
def vkParamKeyPrefix : Bytes := [0x12]
def vkParamBytesPrefix : Bytes := [0x14]
def circuitKeyPrefix : Bytes := [0x16]
def circuitParamRefPrefix : Bytes := [0x17]
def circuitBytesPrefix : Bytes := [0x19]
def pinnedCircuitsIndexPrefix : Bytes := [0x07]
def circuitDepositeePrefix : Bytes := [0x1a]
def circuitDepositExpiryPrefix : Bytes := [0x1b]
def circuitDepositGCPrefix : Bytes := [0x1c]
def circuitByCreatorIDPrefix : Bytes := [0x1d]

def keySequenceCircuitID : Bytes := sequenceKeyPrefix ++ ascii "lastPlonkishCircuit"
def keySequenceVkParamID : Bytes := sequenceKeyPrefix ++ ascii "lastVkParamId"
def keySequenceCodeID : Bytes := sequenceKeyPrefix ++ ascii "lastCodeId"
def keySequenceInstanceID : Bytes := sequenceKeyPrefix ++ ascii "lastContractId"

def getVkParamId (vkParamId : UInt64) : Bytes := vkParamKeyPrefix ++ be64 vkParamId
def getVkParamBytesKey (vkParamId : UInt64) : Bytes := vkParamBytesPrefix ++ be64 vkParamId
def getCodeKey (codeID : UInt64) : Bytes := codeKeyPrefix ++ be64 codeID
def getCircuitKey (zkId : UInt64) : Bytes := circuitKeyPrefix ++ be64 zkId
def getCircuitParamRefKey (zkId : UInt64) : Bytes := circuitParamRefPrefix ++ be64 zkId
def getCircuitBytesKey (zkId : UInt64) : Bytes := circuitBytesPrefix ++ be64 zkId
def getPinnedCodeIndexPrefix (codeID : UInt64) : Bytes := pinnedCodeIndexPrefix ++ be64 codeID
def getPinnedCircuitIndexPrefix (zkID : UInt64) : Bytes := pinnedCircuitsIndexPrefix ++ be64 zkID
def getContractAddressKey (addr : Bytes) : Bytes := contractKeyPrefix ++ addr

/-- The key of a row of `circuitDepositees`. -/
def getCircuitDepositeeKey (addr : AccAddress) : Bytes := circuitDepositeePrefix ++ addr.bytes

/-- The key within `circuitDepositExpiryPrefix`. -/
def getCircuitDepositExpiryKey (paidUntil : UInt64) (addr : AccAddress) : Bytes :=
  be64 paidUntil ++ addr.lengthPrefixed

def parseCircuitDepositExpiryKey (key : Bytes) : Option (UInt64 × AccAddress) :=
  if key.length < 9 then none
  else do
    let paidUntil ← getBE64 key
    let addr ← AccAddress.parseLengthPrefixed (key.drop 8)
    return (paidUntil, addr)

/-- The key within `circuitDepositGCPrefix`. -/
def getCircuitDepositGCKey (addr : AccAddress) : Bytes := addr.lengthPrefixed

def parseCircuitDepositGCKey (key : Bytes) : Option AccAddress := AccAddress.parseLengthPrefixed key

def getCircuitByCreatorIDPrefix (creator : AccAddress) : Bytes :=
  circuitByCreatorIDPrefix ++ creator.lengthPrefixed

def getCircuitByCreatorIDKey (creator : AccAddress) (zkID : UInt64) : Bytes :=
  getCircuitByCreatorIDPrefix creator ++ be64 zkID

/-- `sdk.BigEndianToUint64`: the empty string counts as zero. -/
def bigEndianToUint64 (b : Bytes) : Option UInt64 := if b = [] then some 0 else getBE64 b

@[simp] theorem bigEndianToUint64_be64 (x : UInt64) : bigEndianToUint64 (be64 x) = some x := by
  have hne : be64 x ≠ [] := by
    intro h
    simpa [h] using length_be64 x
  rw [bigEndianToUint64, if_neg hne, getBE64_be64]

theorem getBE64_append (x : UInt64) (b : Bytes) : getBE64 (be64 x ++ b) = some x := by
  have htake : (be64 x ++ b).take 8 = (be64 x).take 8 := by simp
  have hx := getBE64_be64 x
  rw [getBE64, if_pos (by simp)] at hx
  rw [getBE64, if_pos (by simp), htake, hx]

@[simp] theorem parse_getCircuitDepositExpiryKey (paidUntil : UInt64) (addr : AccAddress) :
    parseCircuitDepositExpiryKey (getCircuitDepositExpiryKey paidUntil addr) = some (paidUntil, addr) := by
  have hlen : ¬ (getCircuitDepositExpiryKey paidUntil addr).length < 9 := by
    simp only [getCircuitDepositExpiryKey, AccAddress.lengthPrefixed, length_append, length_be64, length_cons]
    omega
  have hdrop : (be64 paidUntil ++ addr.lengthPrefixed).drop 8 = addr.lengthPrefixed := by
    rw [drop_append_of_le_length (by simp), drop_eq_nil_of_le (by simp), nil_append]
  rw [parseCircuitDepositExpiryKey, if_neg hlen, getCircuitDepositExpiryKey, getBE64_append]
  simp

/-! ## Rows by name -/

inductive Seq where
  | circuit
  | vkParam
  | code
  | contract
  deriving DecidableEq

def Seq.key : Seq → Bytes
  | .circuit => keySequenceCircuitID
  | .vkParam => keySequenceVkParamID
  | .code => keySequenceCodeID
  | .contract => keySequenceInstanceID

theorem Seq.key_injective : Function.Injective Seq.key := by
  intro q q' h
  cases q <;> cases q' <;> first
    | rfl
    | exact absurd h (by decide)

inductive Key where
  | params
  | seq (q : Seq)
  | code (id : UInt64)
  | vkParam (id : UInt64)
  | vkParamBytes (id : UInt64)
  | circuit (id : UInt64)
  | circuitParamRef (id : UInt64)
  | circuitBytes (id : UInt64)
  | pin (id : UInt64)
  | depositee (addr : AccAddress)
  | expiry (paidUntil : UInt64) (addr : AccAddress)
  | gc (addr : AccAddress)
  | creator (addr : AccAddress) (id : UInt64)
  | contract (addr : Bytes)
  deriving DecidableEq

def Key.encode : Key → Bytes
  | params => paramsKey
  | seq q => q.key
  | code id => getCodeKey id
  | vkParam id => getVkParamId id
  | vkParamBytes id => getVkParamBytesKey id
  | circuit id => getCircuitKey id
  | circuitParamRef id => getCircuitParamRefKey id
  | circuitBytes id => getCircuitBytesKey id
  | pin id => getPinnedCodeIndexPrefix id
  | depositee addr => getCircuitDepositeeKey addr
  | expiry u addr => circuitDepositExpiryPrefix ++ getCircuitDepositExpiryKey u addr
  | gc addr => circuitDepositGCPrefix ++ getCircuitDepositGCKey addr
  | creator addr id => getCircuitByCreatorIDKey addr id
  | contract addr => getContractAddressKey addr

/-- The byte every key of a kind starts with. -/
def Key.tag : Key → UInt8
  | params => 0x10
  | seq _ => 0x04
  | code _ => 0x01
  | vkParam _ => 0x12
  | vkParamBytes _ => 0x14
  | circuit _ => 0x16
  | circuitParamRef _ => 0x17
  | circuitBytes _ => 0x19
  | pin _ => 0x07
  | depositee _ => 0x1a
  | expiry _ _ => 0x1b
  | gc _ => 0x1c
  | creator _ _ => 0x1d
  | contract _ => 0x02

theorem Key.head_encode (k : Key) : k.encode.head? = some k.tag := by
  cases k with
  | seq q => cases q <;> rfl
  | _ => rfl

@[simp] theorem Key.encode_inj {k k' : Key} : k.encode = k'.encode ↔ k = k' := by
  constructor
  · intro h
    have htag : k.tag = k'.tag := by
      rw [← Option.some_inj, ← head_encode, ← head_encode, h]
    cases k <;> cases k' <;> first
      | exact absurd htag (by simp only [tag]; decide)
      | skip
    case params => rfl
    case seq q q' => exact congrArg _ (Seq.key_injective h)
    case depositee addr addr' => exact congrArg _ (AccAddress.ext (append_cancel_left h))
    case expiry u addr u' addr' =>
      obtain ⟨hu, haddr⟩ := append_inj (append_cancel_left h) (by simp)
      rw [be64_injective hu, AccAddress.lengthPrefixed_inj.mp haddr]
    case gc addr addr' =>
      exact congrArg _ (AccAddress.lengthPrefixed_inj.mp (append_cancel_left h))
    case creator addr id addr' id' =>
      simp only [encode, getCircuitByCreatorIDKey, getCircuitByCreatorIDPrefix, append_assoc] at h
      obtain ⟨haddr, hid⟩ := AccAddress.lengthPrefixed_append_inj.mp (append_cancel_left h)
      rw [haddr, be64_injective hid]
    case contract addr addr' => exact congrArg _ (append_cancel_left h)
    all_goals exact congrArg _ (be64_injective (append_cancel_left h))
  · rintro rfl
    rfl

end Wasm
