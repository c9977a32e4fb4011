/-
  The canonical list of attestations: sorted, with one attestation for each source.
-/
import TerpCore.Hashmerchant.Oracle

namespace Hashmerchant

open Lib List Keeper OracleAttestation

variable {β : Type} {k : Keeper β}

/-! ## Sorting -/

def attestationCmp : OracleAttestation → OracleAttestation → Ordering :=
  compareLex (compareOn sourceId)
    (compareLex (compareOn value)
      (compareLex (compareOn height) (compareOn timestamp)))

instance : Std.TransCmp attestationCmp := inferInstanceAs (Std.TransCmp (compareLex _ _))

theorem attestationLess_eq : attestationLess = fun a b => (attestationCmp a b).isLT := by
  funext a b
  have hheight : (decide (a.height < b.height)) = (compare a.height b.height).isLT := by
    rw [Bool.eq_iff_iff, decide_eq_true_iff, Ordering.isLT_iff_eq_lt, Std.compare_eq_lt]
  have htime : (decide (a.timestamp < b.timestamp)) = (compare a.timestamp b.timestamp).isLT := by
    rw [Bool.eq_iff_iff, decide_eq_true_iff, Ordering.isLT_iff_eq_lt, Std.compare_eq_lt]
  rw [attestationCmp, isLT_compareLex, isLT_compareLex, isLT_compareLex]
  simp only [attestationLess, compareOn, ne_eq, Std.LawfulEqOrd.compare_eq_iff_eq, Bytes.lt, hheight, htime]

theorem sourceId_eq_of_attestationCmp {a b : OracleAttestation} (h : attestationCmp a b = .eq) :
    a.sourceId = b.sourceId := by
  simp only [attestationCmp, compareLex_eq_eq, compareOn, Std.LawfulEqOrd.compare_eq_iff_eq] at h
  exact h.1

theorem sortOracleAttestations_perm (l : List OracleAttestation) : (k.sortOracleAttestations l).Perm l :=
  k.sliceSort.perm _ _

theorem sortOracleAttestations_sorted (l : List OracleAttestation) :
    (k.sortOracleAttestations l).Pairwise fun a b => (attestationCmp a b).isLE := by
  rw [sortOracleAttestations, attestationLess_eq]
  exact k.sliceSort.sorted attestationCmp l

/-! ## Deduplication -/

theorem dedupeLoop_sublist : ∀ (seen : List Bytes) (l : List OracleAttestation), (dedupeLoop seen l).Sublist l
  | _, [] => List.Sublist.refl _
  | seen, att :: atts => by
    rw [dedupeLoop]
    split_ifs
    · exact (dedupeLoop_sublist seen atts).cons att
    · exact (dedupeLoop_sublist _ atts).cons_cons att

theorem dedupeLoop_sources : ∀ (seen : List Bytes) (l : List OracleAttestation),
    ((dedupeLoop seen l).map sourceId).Nodup ∧ ∀ att ∈ dedupeLoop seen l, att.sourceId ∉ seen
  | _, [] => by simp [dedupeLoop]
  | seen, att :: atts => by
    rw [dedupeLoop]
    split_ifs with hseen
    · exact dedupeLoop_sources seen atts
    · obtain ⟨hnodup, hnew⟩ := dedupeLoop_sources (att.sourceId :: seen) atts
      constructor
      · rw [map_cons, nodup_cons]
        refine ⟨fun hmem => ?_, hnodup⟩
        obtain ⟨b, hb, heq⟩ := mem_map.mp hmem
        exact hnew b hb (by simp [heq])
      · intro b hb
        rcases mem_cons.mp hb with rfl | hb
        · exact hseen
        · exact fun h => hnew b hb (mem_cons_of_mem _ h)

theorem dedupeLoop_of_nodup : ∀ (seen : List Bytes) (l : List OracleAttestation),
    (l.map sourceId).Nodup → (∀ att ∈ l, att.sourceId ∉ seen) →
    dedupeLoop seen l = l
  | _, [], _, _ => rfl
  | seen, att :: atts, hnodup, hnew => by
    rw [map_cons, nodup_cons] at hnodup
    rw [dedupeLoop, if_neg (hnew att (by simp)), dedupeLoop_of_nodup _ atts hnodup.2]
    intro b hb hmem
    rcases mem_cons.mp hmem with heq | hmem
    · exact hnodup.1 (heq ▸ mem_map_of_mem hb)
    · exact hnew b (mem_cons_of_mem _ hb) hmem

/-! ## The canonical list -/

theorem canonical_nodup (l : List OracleAttestation) : ((k.canonical l).map sourceId).Nodup :=
  (dedupeLoop_sources [] _).1

theorem canonical_sorted (l : List OracleAttestation) : (k.canonical l).Pairwise fun a b => (attestationCmp a b).isLE :=
  (sortOracleAttestations_sorted l).sublist (dedupeLoop_sublist [] _)

theorem canonical_canonical (l : List OracleAttestation) : k.canonical (k.canonical l) = k.canonical l := by
  have hsort : k.sortOracleAttestations (k.canonical l) = k.canonical l := by
    refine eq_of_perm_of_sorted attestationCmp (sortOracleAttestations_perm _)
      (sortOracleAttestations_sorted _) (canonical_sorted l) ?_
    intro a ha b hb heq
    have ha' := (sortOracleAttestations_perm _).mem_iff.mp ha
    have hb' := (sortOracleAttestations_perm _).mem_iff.mp hb
    exact inj_on_of_nodup_map (canonical_nodup l) ha' hb' (sourceId_eq_of_attestationCmp heq)
  unfold canonical at hsort ⊢
  rw [hsort]
  exact dedupeLoop_of_nodup [] _ (canonical_nodup l) (by simp)

theorem canonical_eq_nil {l : List OracleAttestation} : k.canonical l = [] ↔ l = [] := by
  have hlen := (sortOracleAttestations_perm (k := k) l).length_eq
  unfold canonical dedupeOracleAttestationsBySourceID
  cases hs : k.sortOracleAttestations l with
  | nil =>
    rw [hs] at hlen
    simp [dedupeLoop, length_eq_zero_iff.mp hlen.symm]
  | cons =>
    rw [hs] at hlen
    have hne : l ≠ [] := by
      rintro rfl
      simp at hlen
    simp [dedupeLoop, hne]

theorem aggregateAttestationRoot_canonical (l : List OracleAttestation) :
    k.aggregateAttestationRoot (k.canonical l) = k.aggregateAttestationRoot l := by
  by_cases hl : l = []
  · simp [hl, canonical_eq_nil.mpr]
  · rw [aggregateAttestationRoot, aggregateAttestationRoot, if_neg hl,
      if_neg (mt canonical_eq_nil.mp hl), canonical_canonical]

end Hashmerchant
