/-
  Runs of a state machine: a list of operations applied one after the other.
-/
import Mathlib.Algebra.Order.Ring.Int
import Mathlib.Algebra.BigOperators.Group.Finset.Basic
import Mathlib.Data.List.Basic
import Mathlib.Tactic.Ring

namespace Lib

variable {σ α : Type}

/-- The state after the operations of a list. -/
def run (step : σ → α → σ) (s : σ) (ops : List α) : σ := ops.foldl step s

/-- Every operation of the run meets `C` in the state it is applied in. -/
def Along (step : σ → α → σ) (C : σ → α → Prop) : σ → List α → Prop
  | _, [] => True
  | s, a :: ops => C s a ∧ Along step C (step s a) ops

instance Along.decidable (step : σ → α → σ) (C : σ → α → Prop) [∀ s a, Decidable (C s a)] :
    ∀ (s : σ) (ops : List α), Decidable (Along step C s ops)
  | _, [] => isTrue trivial
  | s, a :: ops =>
    haveI := Along.decidable step C (step s a) ops
    inferInstanceAs (Decidable (C s a ∧ Along step C (step s a) ops))

variable {step : σ → α → σ} {C : σ → α → Prop}

theorem Along.of_forall (h : ∀ s a, C s a) : ∀ (s : σ) (ops : List α), Along step C s ops
  | _, [] => trivial
  | s, a :: ops => ⟨h s a, Along.of_forall h (step s a) ops⟩

theorem Along.of_mem {P : α → Prop} : ∀ {ops : List α}, (∀ a ∈ ops, P a) → ∀ s : σ, Along step (fun _ a => P a) s ops
  | [], _, _ => trivial
  | a :: _, h, s => ⟨h a (by simp), Along.of_mem (fun b hb => h b (by simp [hb])) (step s a)⟩

@[simp] theorem run_nil (s : σ) : run step s [] = s := rfl

@[simp] theorem run_cons (s : σ) (a : α) (ops : List α) : run step s (a :: ops) = run step (step s a) ops := rfl

theorem run_append (s : σ) (ops ops' : List α) : run step s (ops ++ ops') = run step (run step s ops) ops' :=
  List.foldl_append ..

/-- The invariant rule: what every step under `C` preserves holds after every run along `C`. -/
theorem run_invariant {I : σ → Prop} (hstep : ∀ s a, I s → C s a → I (step s a)) :
    ∀ (s : σ) (ops : List α), Along step C s ops → I s → I (run step s ops)
  | _, [], _, hs => hs
  | s, a :: ops, ⟨ha, hops⟩, hs => run_invariant hstep (step s a) ops hops (hstep s a hs ha)

theorem run_preserves {I : σ → Prop} (hstep : ∀ s a, I s → I (step s a)) (s : σ) (ops : List α) (hs : I s) :
    I (run step s ops) :=
  run_invariant (fun s a hs _ => hstep s a hs) s ops (.of_forall (fun _ _ => trivial) s ops) hs

/-- The counting rule: what a step keeps below `N` while the count grows by one holds after every run of at most `N`
steps. -/
theorem run_counted {I : ℕ → σ → Prop} {N : ℕ} (hstep : ∀ n s a, n < N → I n s → C s a → I (n + 1) (step s a)) :
    ∀ (ops : List α) (n : ℕ) (s : σ), n + ops.length ≤ N → Along step C s ops → I n s →
      I (n + ops.length) (run step s ops)
  | [], _, _, _, _, hs => hs
  | a :: ops, n, s, hN, ⟨ha, hops⟩, hs => by
    rw [List.length_cons] at hN ⊢
    rw [Nat.add_comm ops.length, ← Nat.add_assoc]
    exact run_counted hstep ops (n + 1) (step s a) (by omega) hops (hstep n s a (by omega) hs ha)

theorem Along.of_append {s : σ} : ∀ {ops ops' : List α}, Along step C s (ops ++ ops') →
    Along step C s ops ∧ Along step C (run step s ops) ops'
  | [], _, h => ⟨trivial, h⟩
  | _ :: _, _, ⟨ha, hops⟩ =>
    let ⟨hleft, hright⟩ := Along.of_append hops
    ⟨⟨ha, hleft⟩, hright⟩

/-- A condition along a run is one on each operation and the state after those before it. -/
theorem along_iff_forall_before : ∀ {s : σ} {ops : List α}, Along step C s ops ↔
    ∀ before a after, ops = before ++ a :: after → C (run step s before) a
  | _, [] => by simp [Along]
  | s, b :: ops => by
    rw [Along, along_iff_forall_before]
    constructor
    · rintro ⟨hb, hops⟩ before a after heq
      cases before with
      | nil =>
        cases heq
        exact hb
      | cons b' before =>
        cases heq
        exact hops before a after rfl
    · intro h
      refine ⟨h [] b ops rfl, fun before a after heq => ?_⟩
      exact h (b :: before) a after (by rw [heq]; rfl)

/-- The exact rule: if a step keeps `I` exactly when it meets `C`, then `I` holds all along a run exactly when every
step meets `C`. -/
theorem forall_prefix_iff_along {J I : σ → Prop} (hJ : ∀ s a, J s → J (step s a))
    (hstep : ∀ s a, J s → I s → (I (step s a) ↔ C s a)) : ∀ {s : σ} {ops : List α}, J s → I s →
      ((∀ before, before <+: ops → I (run step s before)) ↔ Along step C s ops)
  | s, [], _, hs => by simpa [Along] using hs
  | s, a :: ops, hJs, hs => by
    constructor
    · intro h
      have hnext : I (step s a) := h [a] (List.prefix_append [a] ops)
      refine ⟨(hstep s a hJs hs).mp hnext, (forall_prefix_iff_along hJ hstep (hJ s a hJs) hnext).mp ?_⟩
      intro before hbefore
      exact h (a :: before) ((List.prefix_cons_inj a).mpr hbefore)
    · rintro ⟨ha, hops⟩ before hbefore
      have hnext : I (step s a) := (hstep s a hJs hs).mpr ha
      rcases List.prefix_cons_iff.mp hbefore with rfl | ⟨before, rfl, hrest⟩
      · exact hs
      · exact (forall_prefix_iff_along hJ hstep (hJ s a hJs) hnext).mpr hops before hrest

/-- What the operations of a run add up to, each measured in the state it is applied in. -/
def gathered (step : σ → α → σ) (g : σ → α → ℤ) : σ → List α → ℤ
  | _, [] => 0
  | s, a :: ops => g s a + gathered step g (step s a) ops

theorem gathered_add (g g' : σ → α → ℤ) : ∀ (s : σ) (ops : List α),
    gathered step (fun s a => g s a + g' s a) s ops = gathered step g s ops + gathered step g' s ops
  | _, [] => rfl
  | s, a :: ops => by
    simp only [gathered, gathered_add g g' (step s a) ops]
    ring

theorem gathered_neg (g : σ → α → ℤ) : ∀ (s : σ) (ops : List α),
    gathered step (fun s a => - g s a) s ops = - gathered step g s ops
  | _, [] => rfl
  | s, a :: ops => by
    simp only [gathered, gathered_neg g (step s a) ops]
    ring

theorem gathered_sum {ι : Type} (A : Finset ι) (g : ι → σ → α → ℤ) : ∀ (s : σ) (ops : List α),
    gathered step (fun s a => ∑ i ∈ A, g i s a) s ops = ∑ i ∈ A, gathered step (g i) s ops
  | _, [] => Finset.sum_const_zero.symm
  | s, a :: ops => by
    simp only [gathered, gathered_sum A g (step s a) ops, Finset.sum_add_distrib]

section measured

variable {I : σ → Prop} (hstep : ∀ s a, I s → C s a → I (step s a))
include hstep

/-- The counting rule: a quantity that each step moves by `g` has moved by the sum of the `g`s. -/
theorem run_gathered {f : σ → ℤ} {g : σ → α → ℤ} (hf : ∀ s a, I s → C s a → f (step s a) = f s + g s a) :
    ∀ (s : σ) (ops : List α), Along step C s ops → I s → f (run step s ops) = f s + gathered step g s ops
  | s, [], _, _ => (add_zero (f s)).symm
  | s, a :: ops, ⟨ha, hops⟩, hs => by
    rw [run_cons, run_gathered hf (step s a) ops hops (hstep s a hs ha), hf s a hs ha, gathered, add_assoc]

theorem along_of_invariant {D : σ → α → Prop} (hD : ∀ s a, I s → C s a → D s a) :
    ∀ (s : σ) (ops : List α), Along step C s ops → I s → Along step D s ops
  | _, [], _, _ => trivial
  | s, a :: ops, ⟨ha, hops⟩, hs =>
    ⟨hD s a hs ha, along_of_invariant hD (step s a) ops hops (hstep s a hs ha)⟩

/-- The order rule: a preorder that each step respects holds between the ends of a run. -/
theorem run_related {R : σ → σ → Prop} (hrefl : ∀ s, R s s) (htrans : ∀ s s' s'', R s s' → R s' s'' → R s s'')
    (hR : ∀ s a, I s → C s a → R s (step s a)) :
    ∀ (s : σ) (ops : List α), Along step C s ops → I s → R s (run step s ops)
  | s, [], _, _ => hrefl s
  | s, a :: ops, ⟨ha, hops⟩, hs =>
    htrans _ _ _ (hR s a hs ha)
      (run_related hrefl htrans hR (step s a) ops hops (hstep s a hs ha))

end measured

end Lib
