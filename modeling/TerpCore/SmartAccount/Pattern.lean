/-
  The patterns of the message filter: JSON values as `encoding/json` reads them, and when a value is a superset of
  a pattern.
-/
import TerpCore.Lib.Bytes
import TerpCore.Lib.Outcome

namespace SmartAccount

open Lib

/-- An `interface{}` that `json.Unmarshal` fills.  The value of a number is never read.  The fields of an object are
in the order of their keys. -/
inductive JSONValue where
  | null
  | bool (b : Bool)
  | number
  | string (s : Bytes)
  | array (items : List JSONValue)
  | object (fields : List (Bytes × JSONValue))

def JSONValue.goType : JSONValue → String
  | .null => "<nil>"
  | .bool _ => "bool"
  | .number => "float64"
  | .string _ => "string"
  | .array _ => "[]interface \x7b\x7d"
  | .object _ => "map[string]interface \x7b\x7d"

mutual

@[simp] def checkForFloats : JSONValue → Bool
  | .object fields => checkFieldsForFloats fields
  | .array items => checkItemsForFloats items
  | .number => true
  | _ => false

@[simp] def checkItemsForFloats : List JSONValue → Bool
  | [] => false
  | val :: rest => checkForFloats val || checkItemsForFloats rest

@[simp] def checkFieldsForFloats : List (Bytes × JSONValue) → Bool
  | [] => false
  | (_, val) :: rest => checkForFloats val || checkFieldsForFloats rest

end

/-- Why a value is no superset of a pattern. -/
inductive Mismatch where
  | expectedMap (got : String)
  | keyMissing (key : Bytes)
  | expectedSlice (got : String)
  | sliceTooShort
  | numbers (a b : ℤ)
  | strings (a b : Bytes)
  | expectedString (got : String)
  /-- `none` is a value that is no boolean -/
  | booleans (a : Bool) (b : Option Bool)
  | expectedNull (got : String)
  | floats
  deriving DecidableEq

def Mismatch.message : Mismatch → String
  | expectedMap _ => "expected map, got %T"
  | keyMissing _ => "key %s missing from second map"
  | expectedSlice _ => "expected slice, got %T"
  | sliceTooShort => "first slice has more elements than second slice"
  | numbers .. => "numbers do not match: %s != %s"
  | strings .. => "strings do not match: %s != %s"
  | expectedString _ => "expected string, got %T"
  | booleans .. => "booleans do not match or wrong type: %v != %v"
  | expectedNull _ => "expected null, got %T"
  | floats => "numbers encoded as floats are not allowed. They should be encoded as strings"

/-- Two strings, as numbers if both look like numbers; `newDecFromStr` is `math.LegacyNewDecFromStr`. -/
def compareStrings (newDecFromStr : Bytes → Option ℤ) (av bv : Bytes) : Outcome Mismatch Unit := do
  match newDecFromStr av, newDecFromStr bv with
  | some decA, some decB => .require (decA = decB) (.numbers decA decB)
  | _, _ => .ok ()
  .require (av = bv) (.strings av bv)

section superset

variable (newDecFromStr : Bytes → Option ℤ)

mutual

@[simp] def isSuperset : JSONValue → JSONValue → Outcome Mismatch Unit
  | .object av, b =>
    match b with
    | .object bv => fieldsSuperset av bv
    | _ => .error (.expectedMap b.goType)
  | .array av, b =>
    match b with
    | .array bv => if bv.length < av.length then .error .sliceTooShort else itemsSuperset av bv
    | _ => .error (.expectedSlice b.goType)
  | .string av, b =>
    match b with
    | .string bv => compareStrings newDecFromStr av bv
    | _ => .error (.expectedString b.goType)
  | .bool av, b =>
    match b with
    | .bool bv => .require (av = bv) (.booleans av bv)
    | _ => .error (.booleans av none)
  | .null, b =>
    match b with
    | .null => .ok ()
    | _ => .error (.expectedNull b.goType)
  | .number, _ => .error .floats

/-- The loop over the keys of a map. -/
@[simp] def fieldsSuperset : List (Bytes × JSONValue) → List (Bytes × JSONValue) → Outcome Mismatch Unit
  | [], _ => .ok ()
  | (key, valA) :: rest, bv =>
    match bv.lookup key with
    | none => .error (.keyMissing key)
    | some valB => do
      isSuperset valA valB
      fieldsSuperset rest bv

/-- The loop over the elements of a slice. -/
@[simp] def itemsSuperset : List JSONValue → List JSONValue → Outcome Mismatch Unit
  | [], _ => .ok ()
  | _ :: _, [] => .panicked
  | valA :: rest, valB :: bv => do
    isSuperset valA valB
    itemsSuperset rest bv

end

end superset

end SmartAccount
