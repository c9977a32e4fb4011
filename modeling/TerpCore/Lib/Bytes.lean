/-
  Byte strings and the fixed-width encodings the Go standard library gives them.
-/
import Mathlib.Algebra.Order.Ring.Nat
import Mathlib.Data.List.Basic

namespace Lib

/-- A Go `[]byte` or `string`. -/
abbrev Bytes := List UInt8

/-- The bytes of an ASCII literal. -/
def ascii (s : String) : Bytes := s.toList.map fun c => UInt8.ofNat c.toNat

/-- Go's `<` on strings. -/
def Bytes.lt (a b : Bytes) : Bool := (compare a b).isLT

@[simp] theorem Bytes.not_lt_nil (b : Bytes) : Bytes.lt b [] = false := by
  cases b <;> rfl

/-! ## Hexadecimal -/

/-- The ASCII code of a lower-case hexadecimal digit. -/
def hexDigit (n : Nat) : UInt8 := UInt8.ofNat (if n < 10 then 48 + n else 87 + n)

def hex : Bytes → Bytes
  | [] => []
  | b :: bs => hexDigit (b.toNat / 16) :: hexDigit (b.toNat % 16) :: hex bs

theorem hexDigit_inj {m n : Nat} (hm : m < 16) (hn : n < 16) (h : hexDigit m = hexDigit n) : m = n := by
  have h' : (hexDigit m).toNat = (hexDigit n).toNat := by rw [h]
  simp only [hexDigit, UInt8.toNat_ofNat'] at h'
  split_ifs at h' <;> omega

theorem hex_injective : Function.Injective hex
  | [], [], _ => rfl
  | [], _ :: _, h | _ :: _, [], h => by simp [hex] at h
  | a :: as, b :: bs, h => by
    simp only [hex, List.cons.injEq] at h
    obtain ⟨hhi, hlo, htl⟩ := h
    have ha := a.toNat_lt
    have hb := b.toNat_lt
    have hdiv := hexDigit_inj (by omega) (by omega) hhi
    have hmod := hexDigit_inj (by omega) (by omega) hlo
    have hab : a = b := UInt8.toNat_inj.mp (by omega)
    rw [hab, hex_injective htl]

@[simp] theorem hex_eq_nil {b : Bytes} : hex b = [] ↔ b = [] := by
  cases b <;> simp [hex]

/-- The value of a hexadecimal digit, in either case. -/
def unhexDigit (c : UInt8) : Option Nat :=
  if 48 ≤ c ∧ c ≤ 57 then some (c.toNat - 48)
  else if 97 ≤ c ∧ c ≤ 102 then some (c.toNat - 87)
  else if 65 ≤ c ∧ c ≤ 70 then some (c.toNat - 55)
  else none

/-- `hex.DecodeString`; `none` is an error. -/
def unhex : Bytes → Option Bytes
  | [] => some []
  | [_] => none
  | a :: b :: cs => do
    let hi ← unhexDigit a
    let lo ← unhexDigit b
    let rest ← unhex cs
    return UInt8.ofNat (16 * hi + lo) :: rest

/-! ## Fixed-width integers -/

/-- The `k` low-order bytes of `n`, least significant first. -/
def leBytes : Nat → Nat → Bytes
  | 0, _ => []
  | k + 1, n => UInt8.ofNat n :: leBytes k (n / 256)

/-- The number a little-endian byte string stands for. -/
def ofLE : Bytes → Nat
  | [] => 0
  | b :: bs => b.toNat + 256 * ofLE bs

@[simp] theorem length_leBytes : ∀ k n : Nat, (leBytes k n).length = k
  | 0, _ => rfl
  | k + 1, n => by simp [leBytes, length_leBytes k]

theorem ofLE_leBytes : ∀ k n : Nat, ofLE (leBytes k n) = n % 256 ^ k
  | 0, n => by simp [leBytes, ofLE, Nat.mod_one]
  | k + 1, n => by
    have hsplit : n % 256 ^ (k + 1) = n % 256 + 256 * (n / 256 % 256 ^ k) := by
      rw [Nat.pow_succ', Nat.mod_mul]
    rw [leBytes, ofLE, ofLE_leBytes k, UInt8.toNat_ofNat', hsplit]

/-- The `k` low-order bytes of `n`, most significant first. -/
def beBytes (k n : Nat) : Bytes := (leBytes k n).reverse

/-- Eight bytes, least significant first. -/
def le64 (x : UInt64) : Bytes := leBytes 8 x.toNat

def be64 (x : UInt64) : Bytes := beBytes 8 x.toNat

/-- `binary.BigEndian.Uint64`: it reads the first eight bytes and panics on fewer. -/
def getBE64 (b : Bytes) : Option UInt64 :=
  if 8 ≤ b.length then some (UInt64.ofNat (ofLE (b.take 8).reverse)) else none

@[simp] theorem length_le64 (x : UInt64) : (le64 x).length = 8 := by simp [le64]

@[simp] theorem length_be64 (x : UInt64) : (be64 x).length = 8 := by simp [be64, beBytes]

theorem ofLE_le64 (x : UInt64) : ofLE (le64 x) = x.toNat := by
  rw [le64, ofLE_leBytes]
  exact Nat.mod_eq_of_lt x.toNat_lt

theorem le64_injective : Function.Injective le64 := by
  intro x y h
  rw [← UInt64.toNat_inj, ← ofLE_le64, h, ofLE_le64]

@[simp] theorem getBE64_be64 (x : UInt64) : getBE64 (be64 x) = some x := by
  have htake : (be64 x).take 8 = be64 x := List.take_of_length_le (by simp)
  rw [getBE64, if_pos (by simp), htake, be64, beBytes, List.reverse_reverse, ← le64, ofLE_le64, UInt64.ofNat_toNat]

def le32 (x : UInt32) : Bytes := leBytes 4 x.toNat

/-- `binary.LittleEndian.Uint32`: it reads the first four bytes and panics on fewer. -/
def getLE32 (b : Bytes) : Option UInt32 :=
  if 4 ≤ b.length then some (UInt32.ofNat (ofLE (b.take 4))) else none

theorem getLE32_be64 {x : UInt64} (h : x.toNat < 2 ^ 32) : getLE32 (be64 x) = some 0 := by
  have htake : (be64 x).take 4 = leBytes 4 0 := by
    have hzero : ∀ m, 2 ^ 32 ≤ m → x.toNat / m = 0 := fun m hm => Nat.div_eq_of_lt (by omega)
    simp [be64, beBytes, leBytes, Nat.div_div_eq_div_mul, hzero]
  rw [getLE32, htake]
  rfl

theorem be64_injective : Function.Injective be64 := by
  intro x y h
  have hxy : getBE64 (be64 x) = getBE64 (be64 y) := by rw [h]
  simpa using hxy

theorem beBytes_succ_append (k n : Nat) (x : Bytes) :
    beBytes (k + 1) n ++ x = beBytes k (n / 256) ++ UInt8.ofNat n :: x := by
  simp [beBytes, leBytes]

/-- Big-endian numbers are compared as numbers, and what follows them decides between equal ones. -/
theorem compare_beBytes_append (k : Nat) : ∀ {m n : Nat}, m < 256 ^ k → n < 256 ^ k → ∀ x y : Bytes,
    compare (beBytes k m ++ x) (beBytes k n ++ y) = (compare m n).then (compare x y) := by
  induction k with
  | zero =>
    intro m n hm hn x y
    obtain rfl : m = n := by omega
    rw [Nat.compare_eq_eq.mpr rfl]
    rfl
  | succ k ih =>
    intro m n hm hn x y
    rw [beBytes_succ_append, beBytes_succ_append,
      ih (Nat.div_lt_of_lt_mul (by omega)) (Nat.div_lt_of_lt_mul (by omega)), List.compare_cons_cons]
    have hbyte : compare (UInt8.ofNat m) (UInt8.ofNat n) = compare (m % 256) (n % 256) := by
      simp only [compareOfLessAndEq, compare, UInt8.lt_iff_toNat_lt, UInt8.toNat_ofNat', ← UInt8.toNat_inj]
    rw [hbyte]
    rcases Nat.lt_trichotomy (m / 256) (n / 256) with hlt | heq | hgt
    · have hmn : m < n := by omega
      rw [Nat.compare_eq_lt.mpr hlt, Nat.compare_eq_lt.mpr hmn]
      rfl
    · rw [Nat.compare_eq_eq.mpr heq, Ordering.eq_then]
      rcases Nat.lt_trichotomy m n with hlt | rfl | hgt
      · rw [Nat.compare_eq_lt.mpr hlt, Nat.compare_eq_lt.mpr (by omega)]
      · rw [Nat.compare_eq_eq.mpr rfl, Nat.compare_eq_eq.mpr rfl]
      · rw [Nat.compare_eq_gt.mpr hgt, Nat.compare_eq_gt.mpr (by omega)]
    · have hnm : n < m := by omega
      rw [Nat.compare_eq_gt.mpr hgt, Nat.compare_eq_gt.mpr hnm]
      rfl

theorem be64_append_lt (u v : UInt64) (x : Bytes) : Bytes.lt (be64 u ++ x) (be64 v) = decide (u < v) := by
  have hcompare := compare_beBytes_append 8 u.toNat_lt v.toNat_lt x []
  rw [List.append_nil] at hcompare
  rw [Bytes.lt, be64, be64, hcompare, Bool.eq_iff_iff, decide_eq_true_eq, UInt64.lt_iff_toNat_lt]
  have hx : (compare x ([] : Bytes)).isLT = false := Bytes.not_lt_nil x
  rcases Nat.lt_trichotomy u.toNat v.toNat with hlt | heq | hgt
  · rw [Nat.compare_eq_lt.mpr hlt]
    exact iff_of_true rfl hlt
  · rw [Nat.compare_eq_eq.mpr heq, Ordering.eq_then, hx]
    exact iff_of_false Bool.false_ne_true (by omega)
  · rw [Nat.compare_eq_gt.mpr hgt]
    exact iff_of_false Bool.false_ne_true (by omega)

end Lib
