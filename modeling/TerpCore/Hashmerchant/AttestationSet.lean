/-
  The canonical list depends on the set of attestations only.
-/
import TerpCore.Hashmerchant.Binding
import TerpCore.Hashmerchant.Determinism

namespace Hashmerchant

open Lib List OracleAttestation

variable {β : Type} {k : Keeper β} {l l' : List OracleAttestation}

/-! ## The least reading of a source -/

/-- By value, and then by height. -/
def readingCmp : OracleAttestation → OracleAttestation → Ordering :=
  compareLex (compareOn value) (compareOn height)

instance : Std.TransCmp readingCmp := inferInstanceAs (Std.TransCmp (compareLex _ _))

/-- No attestation of the source has a lower reading. -/
def LeastReading (l : List OracleAttestation) (a : OracleAttestation) : Prop :=
  ∀ b ∈ l, b.sourceId = a.sourceId → (readingCmp a b).isLE

variable {a b : OracleAttestation}

theorem readingCmp_eq_eq (h : readingCmp a b = .eq) : a.value = b.value ∧ a.height = b.height := by
  simpa [readingCmp, compareOn] using h

/-- For one source, the order of the sort is that of the readings, as far as these differ. -/
theorem readingCmp_of_attestationCmp (hsource : b.sourceId = a.sourceId)
    (h : (attestationCmp a b).isLE) : (readingCmp a b).isLE := by
  have hself : compareOn sourceId a b = .eq := by simp [compareOn, hsource]
  simp only [attestationCmp, readingCmp, compareLex] at h ⊢
  cases hvalue : compareOn value a b <;> simp_all
  cases hheight : compareOn height a b <;> simp_all

/-! ## Deduplication -/

/-- What is kept comes before everything else of its source. -/
theorem mem_dedupeLoop {R : OracleAttestation → OracleAttestation → Prop} :
    ∀ {seen : List Bytes} {l : List OracleAttestation}, l.Pairwise R → a ∈ dedupeLoop seen l → b ∈ l →
    b.sourceId = a.sourceId → b = a ∨ R a b
  | _, [], _, ha, _, _ => by cases ha
  | seen, att :: atts, hsorted, ha, hb, hsource => by
    obtain ⟨hfirst, hsorted⟩ := pairwise_cons.mp hsorted
    rw [dedupeLoop] at ha
    split_ifs at ha with hseen
    · have hnew := (dedupeLoop_sources seen atts).2 a ha
      rcases mem_cons.mp hb with rfl | hb
      · exact absurd (hsource ▸ hseen) hnew
      · exact mem_dedupeLoop hsorted ha hb hsource
    · rcases mem_cons.mp ha with rfl | ha
      · rcases mem_cons.mp hb with rfl | hb
        · exact .inl rfl
        · exact .inr (hfirst b hb)
      · have hnew := (dedupeLoop_sources (att.sourceId :: seen) atts).2 a ha
        rcases mem_cons.mp hb with rfl | hb
        · exact absurd (by simp [hsource]) hnew
        · exact mem_dedupeLoop hsorted ha hb hsource

theorem exists_mem_dedupeLoop : ∀ {seen : List Bytes} {l : List OracleAttestation},
    b ∈ l → b.sourceId ∉ seen → ∃ a ∈ dedupeLoop seen l, a.sourceId = b.sourceId
  | seen, att :: atts, hb, hseen => by
    rw [dedupeLoop]
    split_ifs with hatt
    · rcases mem_cons.mp hb with rfl | hb
      · exact absurd hatt hseen
      · exact exists_mem_dedupeLoop hb hseen
    · by_cases hsame : att.sourceId = b.sourceId
      · exact ⟨att, mem_cons_self, hsame⟩
      · have hb : b ∈ atts := (mem_cons.mp hb).resolve_left (by rintro rfl; exact hsame rfl)
        have hnew : b.sourceId ∉ att.sourceId :: seen := by simp [hseen, Ne.symm hsame]
        obtain ⟨a, ha, hsource⟩ := exists_mem_dedupeLoop hb hnew
        exact ⟨a, mem_cons_of_mem _ ha, hsource⟩

/-! ## The canonical list -/

theorem mem_of_mem_canonical (h : a ∈ k.canonical l) : a ∈ l :=
  (sortOracleAttestations_perm l).mem_iff.mp ((dedupeLoop_sublist [] _).subset h)

theorem leastReading_of_mem_canonical (h : a ∈ k.canonical l) : LeastReading l a := by
  intro b hb hsource
  have hsorted := sortOracleAttestations_sorted (k := k) l
  rcases mem_dedupeLoop hsorted h ((sortOracleAttestations_perm l).mem_iff.mpr hb) hsource with rfl | hle
  · have hself : readingCmp b b = .eq := Std.ReflCmp.compare_self
    rw [hself]
    rfl
  · exact readingCmp_of_attestationCmp hsource hle

theorem exists_mem_canonical (h : b ∈ l) : ∃ a ∈ k.canonical l, a.sourceId = b.sourceId :=
  exists_mem_dedupeLoop ((sortOracleAttestations_perm l).mem_iff.mpr h) not_mem_nil

theorem projection_mem_canonical {p : HashMerchantSudoOracleAttestation} :
    p ∈ (k.canonical l).map projection ↔ ∃ a ∈ l, a.projection = p ∧ LeastReading l a := by
  rw [mem_map]
  constructor
  · rintro ⟨a, ha, rfl⟩
    exact ⟨a, mem_of_mem_canonical ha, rfl, leastReading_of_mem_canonical ha⟩
  · rintro ⟨a, ha, rfl, hleast⟩
    obtain ⟨c, hc, hsource⟩ := exists_mem_canonical ha
    have hle := leastReading_of_mem_canonical hc a ha hsource.symm
    have hge := hleast c (mem_of_mem_canonical hc) hsource
    obtain ⟨hvalue, hheight⟩ := readingCmp_eq_eq (Std.OrientedCmp.isLE_antisymm hle hge)
    exact ⟨c, hc, by simp [projection, hsource, hvalue, hheight]⟩

theorem canonical_increasing (l : List OracleAttestation) :
    (k.canonical l).Pairwise fun a b => Bytes.lt a.sourceId b.sourceId = true := by
  refine ((canonical_sorted l).and (pairwise_map.mp (canonical_nodup l))).imp ?_
  rintro a b ⟨hle, hne⟩
  rw [Bytes.lt]
  cases hcmp : compare a.sourceId b.sourceId with
  | lt => rfl
  | eq => exact absurd (Std.LawfulEqOrd.compare_eq_iff_eq.mp hcmp) hne
  | gt => simp [attestationCmp, compareLex, compareOn, hcmp] at hle

/-! ## Order -/

section order

variable (k)

theorem projection_sources_nodup (l : List OracleAttestation) :
    (((k.canonical l).map projection).map HashMerchantSudoOracleAttestation.sourceID).Nodup := by
  rw [map_map]
  exact canonical_nodup l

theorem projection_sorted (l : List OracleAttestation) : ((k.canonical l).map projection).Pairwise fun p q =>
      (compareOn HashMerchantSudoOracleAttestation.sourceID p q).isLE := by
  refine pairwise_map.mpr ((canonical_increasing l).imp ?_)
  intro a b hlt
  exact Ordering.isLE_of_eq_lt (Ordering.isLT_iff_eq_lt.mp hlt)

theorem canonical_projection_congr (k' : Keeper β) (h : l.Perm l') :
    (k.canonical l).map projection = (k'.canonical l').map projection := by
  have hperm : ((k.canonical l).map projection).Perm
      ((k'.canonical l').map projection) := by
    refine (perm_ext_iff_of_nodup (projection_sources_nodup k l).of_map
      (projection_sources_nodup k' l').of_map).mpr fun p => ?_
    simp only [projection_mem_canonical, LeastReading, h.mem_iff]
  refine eq_of_perm_of_sorted (compareOn HashMerchantSudoOracleAttestation.sourceID) hperm
    (projection_sorted k l) (projection_sorted k' l') ?_
  intro p hp q hq heq
  exact inj_on_of_nodup_map (projection_sources_nodup k l) hp hq (Std.LawfulEqOrd.compare_eq_iff_eq.mp heq)

end order

/-! ## The root -/

/-- What the hash takes from one attestation is what contracts are told about it. -/
def HashMerchantSudoOracleAttestation.digestInput (p : HashMerchantSudoOracleAttestation) : Bytes :=
  p.sourceID ++ p.value ++ le64 p.height

theorem aggregateAttestationRoot_eq (hl : l ≠ []) :
    k.aggregateAttestationRoot l = k.sha256 (((k.canonical l).map projection).flatMap
      HashMerchantSudoOracleAttestation.digestInput) := by
  rw [Keeper.aggregateAttestationRoot, if_neg hl, flatMap_map]
  rfl

theorem aggregateAttestationRoot_congr (srt : SliceSort) (h : l.Perm l') :
    k.aggregateAttestationRoot l = (k.withSort srt).aggregateAttestationRoot l' := by
  by_cases hl : l = []
  · subst hl
    rw [← h.nil_eq]
    rfl
  · have hl' : l' ≠ [] := by
      rintro rfl
      exact hl h.eq_nil
    rw [aggregateAttestationRoot_eq hl, aggregateAttestationRoot_eq hl',
      canonical_projection_congr k (k.withSort srt) h]
    rfl

/-- **The root is a function of the set of attestations.**  For any two sorts: the root and the sequence it commits to
are those of every other order of the list; the sequence has the least reading of each source, in strictly increasing
order; and its root is the root of the list. -/
theorem aggregate_root_order_independent (k : Keeper β) (srt : SliceSort) {l l' : List OracleAttestation}
    (h : l'.Perm l) :
    (k.withSort srt).aggregateAttestationRoot l' = k.aggregateAttestationRoot l ∧
    ((k.withSort srt).canonical l').map projection = (k.canonical l).map projection ∧
    (k.canonical l).Pairwise (fun a b => Bytes.lt a.sourceId b.sourceId = true) ∧
    (∀ a ∈ l, ∃ c ∈ k.canonical l, c ∈ l ∧ c.sourceId = a.sourceId ∧ LeastReading l c) ∧
    (∀ c ∈ k.canonical l, c ∈ l) ∧
    (k.withSort srt).aggregateAttestationRoot (k.canonical l) = k.aggregateAttestationRoot l := by
  refine ⟨(aggregateAttestationRoot_congr srt h.symm).symm,
    (canonical_projection_congr k (k.withSort srt) h.symm).symm, canonical_increasing l, ?_,
    fun c => mem_of_mem_canonical, ?_⟩
  · intro a ha
    obtain ⟨c, hc, hsource⟩ := exists_mem_canonical ha
    exact ⟨c, hc, mem_of_mem_canonical hc, hsource, leastReading_of_mem_canonical hc⟩
  · rw [← aggregateAttestationRoot_congr srt (.refl _), aggregateAttestationRoot_canonical]

/-- A sort that turns around what the comparison does not tell apart. -/
def reversingSort : SliceSort where
  sort less l := SliceSort.insertion.sort less l.reverse
  perm less l := (SliceSort.insertion.perm less _).trans l.reverse_perm
  sorted cmp _ _ := SliceSort.insertion.sorted cmp _

/-- Two signatures for one reading: the sorts keep different ones, and the root is the same. -/
theorem two_signatures_one_root :
    let k : Keeper Unit := { Tables.keeper {} with sha256 := id }
    let high : OracleAttestation := ⟨ascii "src", ascii "zz", 9, 2, [], []⟩
    let low : OracleAttestation := ⟨ascii "src", ascii "aa", 1, 1, [1], []⟩
    let resigned : OracleAttestation := { low with custodySignature := [2] }
    let other : OracleAttestation := ⟨ascii "other", ascii "x", 3, 3, [], []⟩
    k.canonical [high, low, other, resigned] = [other, low] ∧
      (k.withSort reversingSort).canonical [low, other, high, resigned] = [other, resigned] ∧
      (k.withSort reversingSort).aggregateAttestationRoot [low, other, high, resigned] =
        k.aggregateAttestationRoot [high, low, other, resigned] := by
  intro k high low resigned other
  refine ⟨by decide, by decide, ?_⟩
  exact (aggregate_root_order_independent k reversingSort (by decide)).1

end Hashmerchant
