/-
  `sort.Slice`.

  A development takes the sort as a parameter with exactly the promise that Go makes.
-/
import Mathlib.Data.List.Sort

namespace Lib

variable {α β : Type}

/-- A sorting function with the promise of `sort.Slice`. -/
structure SliceSort where
  sort : ∀ {α : Type}, (α → α → Bool) → List α → List α
  perm : ∀ {α : Type} (less : α → α → Bool) (l : List α), (sort less l).Perm l
  sorted : ∀ {α : Type} (cmp : α → α → Ordering) [Std.TransCmp cmp] (l : List α),
    (sort (fun a b => (cmp a b).isLT) l).Pairwise fun a b => (cmp a b).isLE

/-- The usual body of a `less` function: compare by one key, and by the next one on a tie. -/
theorem isLT_compareLex (cmp₁ cmp₂ : α → α → Ordering) (a b : α) :
    (compareLex cmp₁ cmp₂ a b).isLT = if cmp₁ a b ≠ .eq then (cmp₁ a b).isLT else (cmp₂ a b).isLT := by
  cases h : cmp₁ a b <;> simp [compareLex, h]

/-- Two sorted arrangements of the same elements agree if the order tells the elements apart. -/
theorem eq_of_perm_of_sorted (cmp : α → α → Ordering) [Std.TransCmp cmp] {l l' : List α}
    (hperm : l.Perm l') (hl : l.Pairwise fun a b => (cmp a b).isLE)
    (hl' : l'.Pairwise fun a b => (cmp a b).isLE)
    (heq : ∀ a ∈ l, ∀ b ∈ l, cmp a b = .eq → a = b) : l = l' := by
  refine hperm.eq_of_pairwise (fun a b ha hb hab hba => ?_) hl hl'
  refine heq a ha b (hperm.mem_iff.mpr hb) ?_
  exact Std.OrientedCmp.isLE_antisymm hab hba

namespace SliceSort

/-- Insertion sort, which Go uses for short slices. -/
def insertion : SliceSort where
  sort less l := l.insertionSort fun a b => less b a = false
  perm less l := l.perm_insertionSort _
  sorted {α} cmp _ l := by
    have hswap : ∀ a b, cmp b a = (cmp a b).swap := fun a b => Std.OrientedCmp.eq_swap
    have hle : ∀ a b, ((cmp b a).isLT = false) ↔ (cmp a b).isLE := by
      intro a b
      rw [hswap]
      cases cmp a b <;> simp
    simp only [hle]
    have : Std.Total fun a b => (cmp a b).isLE = true := ⟨fun a b => by
      rw [hswap a b]
      cases cmp a b <;> simp⟩
    have : IsTrans α fun a b => (cmp a b).isLE = true := ⟨fun a b c => Std.TransCmp.isLE_trans⟩
    exact l.pairwise_insertionSort _

/-- An element below all others comes first when it was first. -/
theorem insertion_head {less : α → α → Bool} {a : α} {l : List α} (h : ∀ b ∈ l, less b a = false) :
    (insertion.sort less (a :: l)).head? = some a := by
  have hins : ∀ l' : List α, (∀ b ∈ l', less b a = false) →
      (l'.orderedInsert (fun a b => less b a = false) a).head? = some a := by
    intro l' hl'
    cases l' with
    | nil => rfl
    | cons b bs => simp [hl' b (by simp)]
  refine hins _ fun b hb => h b ?_
  exact ((l.perm_insertionSort _).mem_iff).mp hb

end SliceSort

end Lib
