/-
  Folds whose step may fail.
-/
import Mathlib.Algebra.BigOperators.Group.List.Basic
import Mathlib.Algebra.Order.Ring.Int

namespace Lib

open List

variable {σ α : Type} {f : σ → α → Option σ}

theorem foldlM_invariant {I : σ → Prop} (hstep : ∀ s a s', f s a = some s' → I s → I s') :
    ∀ {as : List α} {s s' : σ}, as.foldlM f s = some s' → I s → I s'
  | [], _, _, h, hs => Option.some.inj h ▸ hs
  | a :: as, s, s', h, hs => by
    rw [foldlM_cons, Option.bind_eq_bind, Option.bind_eq_some_iff] at h
    obtain ⟨t, ht, h⟩ := h
    exact foldlM_invariant hstep h (hstep s a t ht hs)

theorem foldlM_sum {g : σ → ℤ} {w : α → ℤ} (hstep : ∀ s a s', f s a = some s' → g s' = g s + w a) :
    ∀ {as : List α} {s s' : σ}, as.foldlM f s = some s' → g s' = g s + (as.map w).sum
  | [], _, _, h => by rw [Option.some.inj h, map_nil, sum_nil, add_zero]
  | a :: as, s, s', h => by
    rw [foldlM_cons, Option.bind_eq_bind, Option.bind_eq_some_iff] at h
    obtain ⟨t, ht, h⟩ := h
    rw [foldlM_sum hstep h, hstep s a t ht, map_cons, sum_cons, add_assoc]

end Lib
