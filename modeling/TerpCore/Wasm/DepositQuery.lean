/-
  Reading the messages of the deposit query.

  Go panics beyond the capacity of a slice, which may be larger than its length; here both count as out of range.
-/
import TerpCore.Wasm.DepositCodec

namespace Wasm

open Lib Outcome List

/-! ## Numbers and addresses -/

section numbers

theorem varintLoop_eq (rest : Bytes) : ∀ (pre : Bytes) (v : BitVec 64) (shift : ℕ),
    (decodeVarint v shift rest = none →
      varintLoop (pre ++ rest) v shift pre.length = .error unexpectedEOF) ∧
    ∀ v' rest', decodeVarint v shift rest = some (v', rest') →
      varintLoop (pre ++ rest) v shift pre.length = .ok (v', (pre ++ rest).length - rest'.length) := by
  induction rest with
  | nil =>
    intro pre v shift
    rw [varintLoop, if_pos (by simp)]
    exact ⟨fun _ => rfl, fun _ _ h => (by cases h)⟩
  | cons b rest ih =>
    intro pre v shift
    rw [varintLoop, if_neg (by simp), index_append, decodeVarint]
    dsimp only
    split_ifs
    · refine ⟨fun h => (by cases h), fun v' rest' h => ?_⟩
      cases h
      congr 2
      simp only [length_append, length_cons]
      omega
    · have hnext := ih (pre ++ [b]) (v ||| varintGroup b shift) ((shift + 7) % 2 ^ 64)
      rw [append_assoc, length_append] at hnext
      exact hnext

variable {pre rest rest' : Bytes} {v v' sl : BitVec 64} {shift : ℕ}

theorem varintLoop_of_none (h : decodeVarint v shift rest = none) :
    varintLoop (pre ++ rest) v shift pre.length = .error unexpectedEOF := (varintLoop_eq rest pre v shift).1 h

theorem varintLoop_of_some (h : decodeVarint v shift rest = some (v', rest')) :
    varintLoop (pre ++ rest) v shift pre.length = .ok (v', (pre ++ rest).length - rest'.length) :=
  (varintLoop_eq rest pre v shift).2 v' rest' h

theorem slice_address (pre : Bytes) (hdecode : decodeVarint v shift rest = some (sl, rest'))
    (hlen : (pre ++ rest).length < 2 ^ 63) :
    (0 ≤ sl.toInt ∧ sl.toInt ≤ rest'.length →
      addInt ((pre ++ rest).length - rest'.length) sl.toInt =
          (pre ++ rest).length - (rest'.drop sl.toInt.toNat).length ∧
        slice (pre ++ rest) ((pre ++ rest).length - rest'.length)
          (addInt ((pre ++ rest).length - rest'.length) sl.toInt) = some (rest'.take sl.toInt.toNat)) ∧
    (¬ (0 ≤ sl.toInt ∧ sl.toInt ≤ rest'.length) →
      slice (pre ++ rest) ((pre ++ rest).length - rest'.length)
        (addInt ((pre ++ rest).length - rest'.length) sl.toInt) = none) := by
  obtain ⟨read, -, rfl⟩ := decodeVarint_suffix rest hdecode
  have htotal : (pre ++ (read ++ rest')).length = (pre ++ read).length + rest'.length := by
    simp only [length_append]
    omega
  have hplace : ((pre ++ (read ++ rest')).length : ℤ) - rest'.length = (pre ++ read).length := by omega
  have hmin := BitVec.le_toInt sl
  have hmax := BitVec.toInt_lt (x := sl)
  rw [hplace]
  constructor
  · rintro ⟨hpos, hle⟩
    have hadd : addInt (pre ++ read).length sl.toInt = (pre ++ read).length + sl.toInt :=
      Int.bmod_eq_of_le (by omega) (by omega)
    refine ⟨by rw [length_drop]; omega, ?_⟩
    rw [slice_eq_some ⟨by omega, by omega, by omega⟩, ← append_assoc, Int.toNat_natCast, drop_left]
    congr 3
    omega
  · intro hout
    rw [slice, if_neg]
    rcases lt_or_ge ((pre ++ read).length + sl.toInt) (2 ^ 63) with hlt | hge
    · have hadd : addInt (pre ++ read).length sl.toInt = (pre ++ read).length + sl.toInt :=
        Int.bmod_eq_of_le (by omega) (by omega)
      omega
    · -- the sum wraps around, to a negative number
      have hadd : addInt (pre ++ read).length sl.toInt = (pre ++ read).length + sl.toInt - 2 ^ 64 := by
        rw [addInt, ← Int.sub_bmod_right]
        exact Int.bmod_eq_of_le (by omega) (by omega)
      omega

theorem readAddress_of_none (h : decodeVarint 0 0 rest = none) :
    readAddress (pre ++ rest) pre.length = .error unexpectedEOF := by
  rw [readAddress, varintLoop_of_none h]
  rfl

variable (h : decodeVarint 0 0 rest = some (sl, rest')) (hlen : (pre ++ rest).length < 2 ^ 63)

include h hlen

theorem readAddress_of_fits (hfits : 0 ≤ sl.toInt ∧ sl.toInt ≤ rest'.length) : readAddress (pre ++ rest) pre.length =
      .ok (rest'.take sl.toInt.toNat, (pre ++ rest).length - (rest'.drop sl.toInt.toNat).length) := by
  obtain ⟨hplace, hslice⟩ := (slice_address pre h hlen).1 hfits
  rw [readAddress, varintLoop_of_some h, ok_bind]
  dsimp only
  rw [hslice, hplace]
  rfl

theorem readAddress_of_overrun (hout : ¬ (0 ≤ sl.toInt ∧ sl.toInt ≤ rest'.length)) :
    readAddress (pre ++ rest) pre.length = .panicked := by
  rw [readAddress, varintLoop_of_some h, ok_bind]
  dsimp only
  rw [(slice_address pre h hlen).2 hout]
  rfl

end numbers

/-! ## The scan -/

/-- What a scan finds: bytes that are refused, a length beyond the bytes, or a field and what comes after it. -/
inductive Scan where
  | refused
  | overrun
  | next (rest : Bytes)

def scanVarint (bs : Bytes) : Scan :=
  match decodeVarint 0 0 bs with
  | none => .refused
  | some (_, rest) => .next rest

def scanAddress (bs : Bytes) : Scan :=
  match decodeVarint 0 0 bs with
  | none => .refused
  | some (sl, rest) =>
    if 0 ≤ sl.toInt ∧ sl.toInt ≤ rest.length then .next (rest.drop sl.toInt.toNat) else .overrun

/-- One field, of a message whose fields with the given numbers are numbers. -/
def scanField (varints : List (BitVec 32)) (bs : Bytes) : Scan :=
  match decodeVarint 0 0 bs with
  | none => .refused
  | some (wire, rest) =>
    if fieldNumber wire = 1 then scanAddress rest
    else if fieldNumber wire ∈ varints then scanVarint rest
    else .refused

/-- After some fields there is an address with a length that is negative, or larger than what is left. -/
inductive Overruns (varints : List (BitVec 32)) : Bytes → Prop
  | here {bs : Bytes} : scanField varints bs = .overrun → Overruns varints bs
  | later {bs rest : Bytes} : scanField varints bs = .next rest → Overruns varints rest → Overruns varints bs

/-- The reader does what the scan says, and stops where it says. -/
def Follows {α : Type} (total : ℕ) (o : Outcome Err (α × ℤ)) : Scan → Prop
  | .refused => o = .error unexpectedEOF
  | .overrun => o = .panicked
  | .next rest => ∃ a, o = .ok (a, total - rest.length)

section scan

variable {pre bs rest : Bytes}

theorem decodeVarint_rest (bs : Bytes) : ∀ (v v' : BitVec 64) (shift shift' : ℕ),
    (decodeVarint v shift bs).map Prod.snd = (decodeVarint v' shift' bs).map Prod.snd := by
  induction bs with
  | nil => exact fun _ _ _ _ => rfl
  | cons b bs ih =>
    intro v v' shift shift'
    rw [decodeVarint, decodeVarint]
    split_ifs
    · rfl
    · exact ih _ _ _ _

theorem follows_varint (v : BitVec 64) (pre bs : Bytes) :
    Follows (pre ++ bs).length (varintLoop (pre ++ bs) v 0 pre.length) (scanVarint bs) := by
  have hsame := decodeVarint_rest bs v 0 0 0
  unfold scanVarint
  cases hv : decodeVarint 0 0 bs with
  | none =>
    rw [hv] at hsame
    exact varintLoop_of_none (Option.map_eq_none_iff.mp hsame)
  | some r =>
    rw [hv] at hsame
    obtain ⟨⟨v', rest⟩, hr, hrest⟩ := Option.map_eq_some_iff.mp hsame
    obtain rfl : rest = r.2 := hrest
    exact ⟨v', varintLoop_of_some hr⟩

theorem follows_address (hlen : (pre ++ bs).length < 2 ^ 63) :
    Follows (pre ++ bs).length (readAddress (pre ++ bs) pre.length) (scanAddress bs) := by
  unfold scanAddress
  cases hv : decodeVarint 0 0 bs with
  | none => exact readAddress_of_none hv
  | some r =>
    dsimp only
    split_ifs with hfits
    · exact ⟨_, readAddress_of_fits hv hlen hfits⟩
    · exact readAddress_of_overrun hv hlen hfits

/-- What is made of the value that was read does not matter. -/
theorem Follows.bind {α β : Type} {total : ℕ} {o : Outcome Err (α × ℤ)} {r : Scan} (h : Follows total o r)
    (f : α → β) : Follows total (o >>= fun x => .ok (f x.1, x.2)) r := by
  cases r with
  | refused | overrun =>
    rw [show o = _ from h]
    rfl
  | next rest =>
    obtain ⟨a, rfl⟩ := h
    exact ⟨f a, rfl⟩

theorem scanVarint_suffix (h : scanVarint bs = .next rest) : ∃ read, bs = read ++ rest := by
  unfold scanVarint at h
  cases hv : decodeVarint 0 0 bs with
  | none =>
    rw [hv] at h
    cases h
  | some r =>
    rw [hv] at h
    obtain rfl : r.2 = rest := Scan.next.inj h
    obtain ⟨read, -, hread⟩ := decodeVarint_suffix bs hv
    exact ⟨read, hread⟩

theorem scanAddress_suffix (h : scanAddress bs = .next rest) : ∃ read, bs = read ++ rest := by
  unfold scanAddress at h
  cases hv : decodeVarint 0 0 bs with
  | none =>
    rw [hv] at h
    cases h
  | some r =>
    obtain ⟨sl, rest'⟩ := r
    rw [hv] at h
    dsimp only at h
    split_ifs at h
    obtain rfl : rest'.drop sl.toInt.toNat = rest := Scan.next.inj h
    obtain ⟨read, -, rfl⟩ := decodeVarint_suffix bs hv
    exact ⟨read ++ rest'.take sl.toInt.toNat, by rw [append_assoc, take_append_drop]⟩

theorem scanField_suffix {varints : List (BitVec 32)} (h : scanField varints bs = .next rest) :
    ∃ read, read ≠ [] ∧ bs = read ++ rest := by
  unfold scanField at h
  cases hv : decodeVarint 0 0 bs with
  | none =>
    rw [hv] at h
    cases h
  | some r =>
    obtain ⟨wire, rest'⟩ := r
    rw [hv] at h
    dsimp only at h
    have hrest : ∃ read, rest' = read ++ rest := by
      split_ifs at h
      · exact scanAddress_suffix h
      · exact scanVarint_suffix h
    obtain ⟨tag, hne, rfl⟩ := decodeVarint_suffix bs hv
    obtain ⟨read, rfl⟩ := hrest
    exact ⟨tag ++ read, by simp [hne], (append_assoc ..).symm⟩

theorem follows_field {μ : Type} {varints : List (BitVec 32)}
    {readValue : μ → Bytes → ℤ → BitVec 64 → Outcome Err (μ × ℤ)} {m : μ}
    (hvalue : ∀ pre rest wire, (pre ++ rest).length < 2 ^ 63 →
      Follows (pre ++ rest).length (readValue m (pre ++ rest) pre.length wire)
        (if fieldNumber wire = 1 then scanAddress rest
        else if fieldNumber wire ∈ varints then scanVarint rest else .refused))
    (hlen : (pre ++ bs).length < 2 ^ 63) :
    Follows (pre ++ bs).length (readField readValue (pre ++ bs) m pre.length) (scanField varints bs) := by
  unfold scanField readField
  cases hv : decodeVarint 0 0 bs with
  | none =>
    rw [varintLoop_of_none hv]
    rfl
  | some r =>
    -- the tag is at the front of what was to be read
    obtain ⟨wire, rest⟩ := r
    have hplace := (varintLoop_eq bs pre 0 0).2 _ _ hv
    obtain ⟨tag, -, rfl⟩ := decodeVarint_suffix bs hv
    rw [← append_assoc] at hlen hplace ⊢
    have hend : (((pre ++ tag) ++ rest).length : ℤ) - rest.length = (pre ++ tag).length := by
      rw [length_append, Nat.cast_add]
      exact add_sub_cancel_right ..
    rw [hplace, hend]
    exact hvalue (pre ++ tag) rest wire hlen

theorem follows_request (m : QueryCircuitDepositRequest) (pre rest : Bytes) (wire : BitVec 64)
    (hlen : (pre ++ rest).length < 2 ^ 63) :
    Follows (pre ++ rest).length (m.readValue (pre ++ rest) pre.length wire)
      (if fieldNumber wire = 1 then scanAddress rest
      else if fieldNumber wire ∈ ([] : List (BitVec 32)) then scanVarint rest else .refused) := by
  unfold QueryCircuitDepositRequest.readValue
  by_cases hfield : fieldNumber wire = 1
  · rw [if_pos hfield, if_neg (not_not.mpr hfield)]
    exact (follows_address hlen).bind _
  · rw [if_neg hfield, if_pos hfield]
    rfl

theorem follows_response (m : QueryCircuitDepositResponse) (pre rest : Bytes) (wire : BitVec 64)
    (hlen : (pre ++ rest).length < 2 ^ 63) :
    Follows (pre ++ rest).length (m.readValue (pre ++ rest) pre.length wire)
      (if fieldNumber wire = 1 then scanAddress rest
      else if fieldNumber wire ∈ [2, 3] then scanVarint rest else .refused) := by
  unfold QueryCircuitDepositResponse.readValue
  by_cases haddress : fieldNumber wire = 1
  · rw [if_pos haddress, if_pos haddress]
    exact (follows_address hlen).bind fun address => { m with address := address }
  · rw [if_neg haddress, if_neg haddress]
    by_cases hpaid : fieldNumber wire = 2
    · rw [if_pos hpaid, if_pos (by simp [hpaid])]
      exact (follows_varint _ pre rest).bind fun v => { m with paidUntilUnix := Int64.ofBitVec v }
    · rw [if_neg hpaid]
      by_cases hcovered : fieldNumber wire = 3
      · rw [if_pos hcovered, if_pos (by simp [hcovered])]
        exact (follows_varint _ pre rest).bind fun v => { m with covered := v != 0 }
      · rw [if_neg hcovered, if_neg (by simpa using ⟨hpaid, hcovered⟩)]
        rfl

end scan

/-! ## The loop over the fields -/

section loop

variable {μ : Type} {d : Decoder μ} {dAtA : Bytes} {m : μ} {i : ℤ}

theorem Decoder.unmarshal_of_ok {r : μ × ℤ} (hlt : i < dAtA.length) (h : readField d.readValue dAtA m i = .ok r) :
    d.unmarshal dAtA m i = d.unmarshal dAtA r.1 r.2 := by
  rw [Decoder.unmarshal, if_pos hlt]
  split <;> simp_all

theorem Decoder.unmarshal_of_error {e : Err} (hlt : i < dAtA.length) (h : readField d.readValue dAtA m i = .error e) :
    d.unmarshal dAtA m i = .error e := by
  rw [Decoder.unmarshal, if_pos hlt]
  split <;> simp_all

theorem Decoder.unmarshal_of_panicked (hlt : i < dAtA.length) (h : readField d.readValue dAtA m i = .panicked) :
    d.unmarshal dAtA m i = .panicked := by
  rw [Decoder.unmarshal, if_pos hlt]
  split <;> simp_all

theorem Decoder.unmarshal_end (hend : dAtA.length ≤ i) : d.unmarshal dAtA m i = .ok m := by
  rw [Decoder.unmarshal, if_neg (by omega)]

/-- The loop slices beyond the bytes exactly if a scan of them does. -/
theorem Decoder.unmarshal_eq_panicked_iff {varints : List (BitVec 32)}
    (hvalue : ∀ m pre rest wire, (pre ++ rest).length < 2 ^ 63 →
      Follows (pre ++ rest).length (d.readValue m (pre ++ rest) pre.length wire)
        (if fieldNumber wire = 1 then scanAddress rest
        else if fieldNumber wire ∈ varints then scanVarint rest else .refused))
    (n : ℕ) : ∀ (m : μ) (pre bs : Bytes), bs.length = n → (pre ++ bs).length < 2 ^ 63 →
      (d.unmarshal (pre ++ bs) m pre.length = .panicked ↔ Overruns varints bs) := by
  induction n using Nat.strong_induction_on with
  | h n ih =>
    rintro m pre bs rfl hlen
    cases bs with
    | nil =>
      rw [d.unmarshal_end (by simp)]
      constructor
      · intro h
        cases h
      · rintro (h | ⟨h, -⟩)
        · cases h
        · cases h
    | cons b bs =>
      have hlt : (pre.length : ℤ) < (pre ++ b :: bs).length := by simp
      have hfield := follows_field (hvalue m) hlen
      cases hscan : scanField varints (b :: bs) with
      | refused =>
        rw [hscan] at hfield
        rw [d.unmarshal_of_error hlt hfield]
        constructor
        · intro h
          cases h
        · rintro (h | ⟨h, -⟩)
          · simp [hscan] at h
          · simp [hscan] at h
      | overrun =>
        rw [hscan] at hfield
        rw [d.unmarshal_of_panicked hlt hfield]
        exact ⟨fun _ => .here hscan, fun _ => rfl⟩
      | next rest =>
        rw [hscan] at hfield
        obtain ⟨m', hread⟩ := hfield
        obtain ⟨read, hne, hbs⟩ := scanField_suffix hscan
        rw [d.unmarshal_of_ok hlt hread]
        have hpos := length_pos_of_ne_nil hne
        have hlen' : (b :: bs).length = read.length + rest.length := by rw [hbs, length_append]
        rw [hbs, ← append_assoc] at hlen ⊢
        have hplace : ((pre ++ read ++ rest).length : ℤ) - rest.length = (pre ++ read).length := by
          rw [length_append, Nat.cast_add]
          exact add_sub_cancel_right ..
        rw [hplace, ih rest.length (by omega) m' (pre ++ read) rest rfl hlen, ← hbs]
        constructor
        · exact fun h => .later hscan h
        · rintro (h | ⟨h, hrest⟩)
          · simp [hscan] at h
          · rw [hscan] at h
            cases h
            exact hrest

end loop

/-! ## Hostile bytes -/

/-- The messages are read without a slice beyond the bytes exactly if no length overruns them, and the place moves
forward with every number and every field. -/
theorem deposit_decoding_safe_iff (dAtA : Bytes) (hlen : dAtA.length < 2 ^ 63) :
    (∀ m : QueryCircuitDepositRequest, m.unmarshal dAtA ≠ .panicked ↔ ¬ Overruns [] dAtA) ∧
    (∀ m : QueryCircuitDepositResponse, m.unmarshal dAtA ≠ .panicked ↔ ¬ Overruns [2, 3] dAtA) ∧
    (∀ v shift i r, varintLoop dAtA v shift i = .ok r → i < r.2) ∧
    (∀ m i r, readField QueryCircuitDepositRequest.readValue dAtA m i = .ok r → i < r.2) ∧
    ∀ m i r, readField QueryCircuitDepositResponse.readValue dAtA m i = .ok r → i < r.2 := by
  refine ⟨fun m => ?_, fun m => ?_, fun v shift i _ => varintLoop_lt dAtA v shift i,
    fun _ _ _ => QueryCircuitDepositRequest.decoder.readField_lt,
    fun _ _ _ => QueryCircuitDepositResponse.decoder.readField_lt⟩
  · exact not_congr (QueryCircuitDepositRequest.decoder.unmarshal_eq_panicked_iff follows_request _ m [] dAtA rfl hlen)
  · exact not_congr (QueryCircuitDepositResponse.decoder.unmarshal_eq_panicked_iff follows_response _ m [] dAtA rfl
      hlen)

/-- An address of one byte. -/
theorem short_address_read_safely :
    ({} : QueryCircuitDepositRequest).unmarshal [0x0a, 1, 0x61] = .ok ⟨[0x61]⟩ ∧ ¬ Overruns [] [0x0a, 1, 0x61] := by
  have hok : ({} : QueryCircuitDepositRequest).unmarshal [0x0a, 1, 0x61] = .ok ⟨[0x61]⟩ := by decide +kernel
  refine ⟨hok, ((deposit_decoding_safe_iff [0x0a, 1, 0x61] (by decide)).1 {}).mp ?_⟩
  rw [hok]
  simp

/-- An address of 127 bytes of which none is there, and one of -1 bytes. -/
theorem long_address_panics : ({} : QueryCircuitDepositRequest).unmarshal [0x0a, 0x7f] = .panicked ∧
      ({} : QueryCircuitDepositResponse).unmarshal [0x0a, 0x7f] = .panicked ∧
      ({} : QueryCircuitDepositRequest).unmarshal
        [0x0a, 0xff, 0xff, 0xff, 0xff, 0xff, 0xff, 0xff, 0xff, 0xff, 0x01] = .panicked := by
  decide +kernel

/-! ## The round trip -/

section roundtrip

variable {pre rest : Bytes}

variable {tag : UInt8} {m : QueryCircuitDepositResponse}

theorem decodeVarint_tag (htag : tag < 0x80) (bs : Bytes) :
    decodeVarint 0 0 ([tag] ++ bs) = some (BitVec.ofNat 64 tag.toNat, bs) := by
  have hlt : tag.toNat < 128 := UInt8.lt_iff_toNat_lt.mp htag
  rw [singleton_append, decodeVarint, if_pos htag, varintGroup_eq, Nat.mod_eq_of_lt hlt]
  simp

theorem length_varintBytes_le (x : BitVec 64) : (varintBytes x.toNat).length ≤ 10 := by
  have hlog : x.toNat.log2 < 64 := by
    rcases Nat.eq_zero_or_pos x.toNat with hzero | hpos
    · rw [hzero]
      decide
    · exact (Nat.log2_lt (by omega)).mpr x.isLt
  rw [length_varintBytes_eq]
  omega

theorem decodeVarint_word (x : BitVec 64) (bs : Bytes) :
    decodeVarint 0 0 (varintBytes x.toNat ++ bs) = some (x, bs) := by
  have hle := length_varintBytes_le x
  rw [decodeVarint_varintBytes _ _ _ _ (by omega)]
  simp

theorem readField_tag {μ : Type} {readValue : μ → Bytes → ℤ → BitVec 64 → Outcome Err (μ × ℤ)} (htag : tag < 0x80)
    (m : μ) (pre bs : Bytes) :
    readField readValue (pre ++ ([tag] ++ bs)) m pre.length =
      readValue m ((pre ++ [tag]) ++ bs) (pre ++ [tag]).length (BitVec.ofNat 64 tag.toNat) := by
  have hplace : ((pre ++ ([tag] ++ bs)).length : ℤ) - bs.length = (pre ++ [tag]).length := by
    simp only [length_append]
    omega
  rw [readField, varintLoop_of_some (decodeVarint_tag htag bs), hplace, ← append_assoc]
  rfl

theorem readAddress_written {address : Bytes} (hlen : (pre ++ (varintBytes (BitVec.ofNat 64 address.length).toNat ++
      (address ++ rest))).length < 2 ^ 63) :
    readAddress (pre ++ (varintBytes (BitVec.ofNat 64 address.length).toNat ++ (address ++ rest))) pre.length =
      .ok (address, (pre ++ (varintBytes (BitVec.ofNat 64 address.length).toNat ++ (address ++ rest))).length -
        rest.length) := by
  have hsize : address.length < 2 ^ 63 := by
    simp only [length_append] at hlen
    omega
  have hsl : (BitVec.ofNat 64 address.length).toInt = address.length := by
    rw [BitVec.toInt_eq_toNat_of_lt]
    · rw [BitVec.toNat_ofNat, Nat.mod_eq_of_lt (by omega)]
    · rw [BitVec.toNat_ofNat]
      omega
  have hread := readAddress_of_fits (decodeVarint_word _ (address ++ rest)) hlen
    (by rw [length_append]; omega)
  rwa [hsl, Int.toNat_natCast, take_left, drop_left] at hread

theorem Decoder.unmarshal_field {μ : Type} {d : Decoder μ} (htag : tag < 0x80) {m m' : μ} {value : Bytes}
    (hvalue : d.readValue m ((pre ++ [tag]) ++ (value ++ rest)) (pre ++ [tag]).length
      (BitVec.ofNat 64 tag.toNat) = .ok (m', ((pre ++ [tag]) ++ (value ++ rest)).length - rest.length)) :
    d.unmarshal (pre ++ (([tag] ++ value) ++ rest)) m pre.length =
      d.unmarshal (pre ++ (([tag] ++ value) ++ rest)) m' (pre ++ ([tag] ++ value)).length := by
  have hlt : (pre.length : ℤ) < (pre ++ (([tag] ++ value) ++ rest)).length := by
    simp only [length_append, length_singleton]
    omega
  have hplace : (((pre ++ [tag]) ++ (value ++ rest)).length : ℤ) - rest.length = (pre ++ ([tag] ++ value)).length := by
    simp only [length_append]
    omega
  have hread : readField d.readValue (pre ++ (([tag] ++ value) ++ rest)) m pre.length =
      .ok (m', (pre ++ ([tag] ++ value)).length) := by
    rw [append_assoc [tag], readField_tag htag, hvalue, hplace]
  rw [d.unmarshal_of_ok hlt hread]

theorem Decoder.unmarshal_address {μ : Type} {d : Decoder μ} {m : μ} (set : Bytes → μ) {address : Bytes}
    (hlen : (pre ++ (addressField address ++ rest)).length < 2 ^ 63) (hempty : set [] = m)
    (hvalue : ∀ dAtA i, d.readValue m dAtA i 10 = readAddress dAtA i >>= fun r => .ok (set r.1, r.2)) :
    d.unmarshal (pre ++ (addressField address ++ rest)) m pre.length =
      d.unmarshal (pre ++ (addressField address ++ rest)) (set address) (pre ++ addressField address).length := by
  by_cases hpos : 0 < address.length
  · have hfield : addressField address = [0x0a] ++ (varintBytes (BitVec.ofNat 64 address.length).toNat ++ address) := by
      rw [addressField, if_pos hpos, append_assoc]
    rw [hfield] at hlen ⊢
    refine d.unmarshal_field (by decide) ?_
    rw [append_assoc _ address, show BitVec.ofNat 64 (0x0a : UInt8).toNat = 10 from rfl, hvalue, readAddress_written]
    · rfl
    · simpa only [append_assoc] using hlen
  · obtain rfl : address = [] := eq_nil_of_length_eq_zero (by omega)
    have hfield : addressField [] = [] := rfl
    rw [hfield, append_nil, hempty]

theorem QueryCircuitDepositRequest.unmarshal_address (pre rest : Bytes) {m : QueryCircuitDepositRequest}
    (hm : m.address = []) (address : Bytes) (hlen : (pre ++ (addressField address ++ rest)).length < 2 ^ 63) :
    decoder.unmarshal (pre ++ (addressField address ++ rest)) m pre.length =
      decoder.unmarshal (pre ++ (addressField address ++ rest)) { m with address := address }
        (pre ++ addressField address).length := by
  refine Decoder.unmarshal_address (fun address => { m with address := address }) hlen (by rw [← hm]) ?_
  intro dAtA i
  rfl

theorem QueryCircuitDepositResponse.unmarshal_address (pre rest : Bytes) (hm : m.address = []) (address : Bytes)
    (hlen : (pre ++ (addressField address ++ rest)).length < 2 ^ 63) :
    decoder.unmarshal (pre ++ (addressField address ++ rest)) m pre.length =
      decoder.unmarshal (pre ++ (addressField address ++ rest)) { m with address := address }
        (pre ++ addressField address).length := by
  refine Decoder.unmarshal_address (fun address => { m with address := address }) hlen (by rw [← hm]) ?_
  intro dAtA i
  rfl

theorem QueryCircuitDepositResponse.unmarshal_paidUntil (pre rest : Bytes) (hm : m.paidUntilUnix = 0)
    (paidUntilUnix : Int64) :
    QueryCircuitDepositResponse.decoder.unmarshal (pre ++ (paidUntilField paidUntilUnix ++ rest)) m pre.length =
      QueryCircuitDepositResponse.decoder.unmarshal (pre ++ (paidUntilField paidUntilUnix ++ rest))
        { m with paidUntilUnix := paidUntilUnix } (pre ++ paidUntilField paidUntilUnix).length := by
  by_cases hzero : paidUntilUnix = 0
  · have hfield : paidUntilField 0 = [] := rfl
    rw [hzero, hfield, append_nil, ← hm]
  · rw [paidUntilField, if_pos hzero]
    refine Decoder.unmarshal_field (by decide) ?_
    show QueryCircuitDepositResponse.readValue m _ _ 16 = _
    have hread := (varintLoop_eq _ (pre ++ [0x10]) 0 0).2 _ _ (decodeVarint_word paidUntilUnix.toBitVec rest)
    rw [QueryCircuitDepositResponse.readValue, hm, show (0 : Int64).toBitVec = 0 from rfl, hread]
    rfl

theorem QueryCircuitDepositResponse.unmarshal_covered (pre rest : Bytes) (hm : m.covered = false) (covered : Bool) :
    QueryCircuitDepositResponse.decoder.unmarshal (pre ++ (coveredField covered ++ rest)) m pre.length =
      QueryCircuitDepositResponse.decoder.unmarshal (pre ++ (coveredField covered ++ rest))
        { m with covered := covered } (pre ++ coveredField covered).length := by
  cases covered with
  | false =>
    have hfield : coveredField false = [] := rfl
    rw [hfield, append_nil, ← hm]
  | true =>
    refine Decoder.unmarshal_field (by decide) ?_
    show QueryCircuitDepositResponse.readValue m _ _ 24 = _
    have hread :=
      (varintLoop_eq _ (pre ++ [0x18]) 0 0).2 _ _ (decodeVarint_tag (show (1 : UInt8) < 0x80 by decide) rest)
    rw [QueryCircuitDepositResponse.readValue, hread]
    rfl

theorem QueryCircuitDepositRequest.unmarshal_encode {m : QueryCircuitDepositRequest} (hsize : m.size < 2 ^ 63) :
    ({} : QueryCircuitDepositRequest).unmarshal m.encode = .ok m := by
  have hlen : ([] ++ (addressField m.address ++ [])).length < 2 ^ 63 := by
    rw [nil_append, append_nil, ← encode, length_encode]
    exact hsize
  have hread := unmarshal_address [] [] rfl m.address hlen
  rw [append_nil] at hread
  exact hread.trans (Decoder.unmarshal_end le_rfl)

theorem QueryCircuitDepositResponse.unmarshal_encode (hsize : m.size < 2 ^ 63) :
    ({} : QueryCircuitDepositResponse).unmarshal m.encode = .ok m := by
  have hlen : m.encode.length < 2 ^ 63 := by
    rw [length_encode]
    exact hsize
  -- the three fields, each from where the one before it ends
  have haddress := unmarshal_address [] (paidUntilField m.paidUntilUnix ++ coveredField m.covered) (m := {}) rfl
    m.address hlen
  have hpaid := unmarshal_paidUntil (addressField m.address) (coveredField m.covered)
    (m := { address := m.address }) rfl m.paidUntilUnix
  have hcovered := unmarshal_covered (addressField m.address ++ paidUntilField m.paidUntilUnix) []
    (m := { address := m.address, paidUntilUnix := m.paidUntilUnix }) rfl m.covered
  rw [append_nil, append_assoc] at hcovered
  exact haddress.trans (hpaid.trans (hcovered.trans (Decoder.unmarshal_end le_rfl)))

theorem QueryCircuitDepositRequest.marshal_eq (m : QueryCircuitDepositRequest) : m.marshal = .ok m.encode := by
  rw [marshal, marshalInto_eq (length_replicate ..), ok_bind]
  dsimp only
  rw [slice_length ⟨le_rfl, Int.natCast_nonneg _⟩]
  rfl

theorem QueryCircuitDepositResponse.marshal_eq (m : QueryCircuitDepositResponse) : m.marshal = .ok m.encode := by
  rw [marshal, marshalInto_eq (length_replicate ..), ok_bind]
  dsimp only
  rw [slice_length ⟨le_rfl, Int.natCast_nonneg _⟩]
  rfl

/-- Both messages are read back as they were written: every address, every time, negative ones too, and both flags;
and a writer fills its buffer, whatever it held, from the end to the first byte.  A message has fewer than `2 ^ 63`
bytes. -/
theorem deposit_codec_round_trip : (∀ m : QueryCircuitDepositRequest, m.size < 2 ^ 63 →
      ∃ out, out.length = m.size ∧ (∀ dAtA : Bytes, dAtA.length = m.size → m.marshalInto dAtA = .ok (out, 0)) ∧
        m.marshal = .ok out ∧ ({} : QueryCircuitDepositRequest).unmarshal out = .ok m) ∧
    ∀ m : QueryCircuitDepositResponse, m.size < 2 ^ 63 →
      ∃ out, out.length = m.size ∧ (∀ dAtA : Bytes, dAtA.length = m.size → m.marshalInto dAtA = .ok (out, 0)) ∧
        m.marshal = .ok out ∧ ({} : QueryCircuitDepositResponse).unmarshal out = .ok m := by
  constructor
  · intro m hsize
    exact ⟨m.encode, m.length_encode, fun _ h => m.marshalInto_eq h, m.marshal_eq, m.unmarshal_encode hsize⟩
  · intro m hsize
    exact ⟨m.encode, m.length_encode, fun _ h => m.marshalInto_eq h, m.marshal_eq, m.unmarshal_encode hsize⟩

/-- An address of two bytes, paid until a second before the epoch. -/
theorem negative_time_read_back :
    ∃ out : Bytes, (out.length = 17 ∧ QueryCircuitDepositResponse.marshal
        { address := [0x61, 0x62], paidUntilUnix := -1, covered := true } = .ok out) ∧
      ({} : QueryCircuitDepositResponse).unmarshal out =
        .ok { address := [0x61, 0x62], paidUntilUnix := -1, covered := true } := by
  obtain ⟨out, hlength, -, hmarshal, hread⟩ := deposit_codec_round_trip.2
    { address := [0x61, 0x62], paidUntilUnix := -1, covered := true } (by decide)
  exact ⟨out, ⟨hlength, hmarshal⟩, hread⟩

end roundtrip

end Wasm
