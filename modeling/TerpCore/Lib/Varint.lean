/-
  Numbers in groups of seven bits, the lowest first: every byte but the last has the high bit set.
-/
import TerpCore.Lib.Bytes
import Mathlib.Data.Nat.Bitwise

namespace Lib

def varintBytes (n : ℕ) : Bytes :=
  if n < 128 then [UInt8.ofNat n] else UInt8.ofNat (n % 128 + 128) :: varintBytes (n / 128)
termination_by n

/-- The seven bits of a byte at their place in the word.  As in Go a shift by 64 or more gives 0. -/
def varintGroup (b : UInt8) (shift : ℕ) : BitVec 64 := (b &&& 0x7f).toBitVec.setWidth 64 <<< shift

/-- The groups up to the first byte without the high bit are added to `v`; the shift is a 64-bit number. -/
def decodeVarint (v : BitVec 64) (shift : ℕ) : Bytes → Option (BitVec 64 × Bytes)
  | [] => none
  | b :: bs =>
    if b < 0x80 then some (v ||| varintGroup b shift, bs)
    else decodeVarint (v ||| varintGroup b shift) ((shift + 7) % 2 ^ 64) bs

/-! ## Reading -/

theorem decodeVarint_suffix (bs : Bytes) : ∀ {v v' : BitVec 64} {shift : ℕ} {rest : Bytes},
    decodeVarint v shift bs = some (v', rest) → ∃ read, read ≠ [] ∧ bs = read ++ rest := by
  induction bs with
  | nil => simp [decodeVarint]
  | cons b bs ih =>
    intro v v' shift rest h
    rw [decodeVarint] at h
    split_ifs at h with hlast
    · cases h
      exact ⟨[b], by simp, rfl⟩
    · obtain ⟨read, -, rfl⟩ := ih h
      exact ⟨b :: read, by simp, rfl⟩

/-! ## The round trip -/

theorem varintGroup_eq (b : UInt8) (shift : ℕ) : varintGroup b shift = BitVec.ofNat 64 (b.toNat % 128) <<< shift := by
  rw [varintGroup]
  congr 1
  refine BitVec.eq_of_toNat_eq ?_
  have hand : (b &&& 0x7f).toBitVec.toNat = b.toNat % 128 := by
    exact Nat.and_two_pow_sub_one_eq_mod b.toNat 7
  rw [BitVec.toNat_setWidth, hand, BitVec.toNat_ofNat]

theorem ofNat_eq_or (n : ℕ) : BitVec.ofNat 64 n = BitVec.ofNat 64 (n % 128) ||| BitVec.ofNat 64 (n / 128) <<< 7 := by
  refine BitVec.eq_of_getLsbD_eq fun i hi => ?_
  have hmod : n % 128 = n % 2 ^ 7 := rfl
  have hdiv : n / 128 = n / 2 ^ 7 := rfl
  simp only [BitVec.getLsbD_or, BitVec.getLsbD_ofNat, BitVec.getLsbD_shiftLeft, hmod, hdiv, Nat.testBit_mod_two_pow,
    Nat.testBit_div_two_pow]
  by_cases hlow : i < 7
  · simp [hlow]
  · have hsub : i - 7 + 7 = i := by omega
    have hlt : i - 7 < 64 := by omega
    simp [hlow, hsub, hlt]

theorem decodeVarint_varintBytes (n : ℕ) : ∀ (v : BitVec 64) (shift : ℕ) (rest : Bytes),
    shift + 7 * (varintBytes n).length < 2 ^ 64 →
      decodeVarint v shift (varintBytes n ++ rest) = some (v ||| BitVec.ofNat 64 n <<< shift, rest) := by
  induction n using varintBytes.induct with
  | case1 n hlt =>
    intro v shift rest _
    have hbyte : (UInt8.ofNat n).toNat = n := by
      rw [UInt8.toNat_ofNat', Nat.mod_eq_of_lt (by omega)]
    have hlast : UInt8.ofNat n < 0x80 := by
      rw [UInt8.lt_iff_toNat_lt, hbyte]
      exact hlt
    rw [varintBytes, if_pos hlt, List.singleton_append, decodeVarint, if_pos hlast, varintGroup_eq, hbyte,
      Nat.mod_eq_of_lt hlt]
  | case2 n hge ih =>
    intro v shift rest hshift
    rw [varintBytes, if_neg hge, List.length_cons] at hshift
    have hbyte : (UInt8.ofNat (n % 128 + 128)).toNat = n % 128 + 128 := by
      rw [UInt8.toNat_ofNat', Nat.mod_eq_of_lt (by omega)]
    have hmore : ¬ UInt8.ofNat (n % 128 + 128) < 0x80 := by
      rw [UInt8.lt_iff_toNat_lt, hbyte]
      exact Nat.not_lt.mpr (Nat.le_add_left ..)
    have hnext : (shift + 7) % 2 ^ 64 = shift + 7 := Nat.mod_eq_of_lt (by omega)
    have hgroup : (n % 128 + 128) % 128 = n % 128 := by omega
    rw [varintBytes, if_neg hge, List.cons_append, decodeVarint, if_neg hmore, hnext, ih _ _ _ (by omega),
      varintGroup_eq, hbyte, hgroup, ofNat_eq_or n, BitVec.shiftLeft_or_distrib, ← BitVec.shiftLeft_add,
      Nat.add_comm 7 shift, BitVec.or_assoc]

/-! ## The length -/

def len64 (x : BitVec 64) : ℕ := if x = 0 then 0 else x.toNat.log2 + 1

theorem log2_div_128 {n : ℕ} (h : 128 ≤ n) : n.log2 = (n / 128).log2 + 7 := by
  have hpos : n / 128 ≠ 0 := by omega
  obtain ⟨hle, hlt⟩ := (Nat.log2_eq_iff hpos).mp rfl
  refine (Nat.log2_eq_iff (by omega)).mpr ⟨?_, ?_⟩
  · rw [Nat.pow_add]
    omega
  · have hpow : 2 ^ ((n / 128).log2 + 7 + 1) = 2 ^ ((n / 128).log2 + 1) * 2 ^ 7 := by
      rw [← Nat.pow_add]
    omega

theorem length_varintBytes_eq (n : ℕ) : (varintBytes n).length = n.log2 / 7 + 1 := by
  induction n using varintBytes.induct with
  | case1 n hlt =>
    have hlog : n.log2 < 7 := by
      rcases Nat.eq_zero_or_pos n with rfl | hpos
      · decide
      · exact (Nat.log2_lt (by omega)).mpr hlt
    rw [varintBytes, if_pos hlt, List.length_singleton]
    omega
  | case2 n hge ih =>
    have hlog := log2_div_128 (n := n) (by omega)
    rw [varintBytes, if_neg hge, List.length_cons]
    omega

theorem log2_or_one (n : ℕ) : (n ||| 1).log2 = n.log2 := by
  rcases Nat.eq_zero_or_pos n with rfl | hpos
  · rfl
  · obtain ⟨hle, hlt⟩ := (Nat.log2_eq_iff (n := n) (by omega)).mp rfl
    have hor : n ≤ n ||| 1 := Nat.left_le_or
    have hone : 1 < 2 ^ (n.log2 + 1) := Nat.one_lt_two_pow (by omega)
    exact (Nat.log2_eq_iff (by omega)).mpr ⟨hle.trans hor, Nat.or_lt_two_pow hlt hone⟩

theorem length_varintBytes (x : BitVec 64) : (varintBytes x.toNat).length = (len64 (x ||| 1) + 6) / 7 := by
  have hor : (x ||| 1).toNat = x.toNat ||| 1 := BitVec.toNat_or ..
  have hne : x ||| 1 ≠ 0 := by
    intro heq
    have hle : 1 ≤ x.toNat ||| 1 := Nat.right_le_or
    rw [← hor, heq] at hle
    exact absurd hle (by decide)
  rw [len64, if_neg hne, hor, log2_or_one, length_varintBytes_eq]
  omega

end Lib
