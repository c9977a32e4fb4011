/-
  Lists whose elements correspond one to one (`List.Forall₂`, and `List.mapIdx` for a function that counts).
-/
import Mathlib.Data.List.Forall2

namespace Lib

open List

variable {α β γ : Type} {R : α → β → Prop}

theorem exists_right_of_mem {l : List α} {l' : List β} (h : List.Forall₂ R l l') {a : α} (ha : a ∈ l) :
    ∃ b ∈ l', R a b := by
  induction h with
  | nil => cases ha
  | cons hr _ ih =>
    rcases mem_cons.mp ha with rfl | ha
    · exact ⟨_, mem_cons_self, hr⟩
    · obtain ⟨b, hb, hr⟩ := ih ha
      exact ⟨b, mem_cons_of_mem _ hb, hr⟩

theorem exists_left_of_mem {l : List α} {l' : List β} (h : List.Forall₂ R l l') {b : β} (hb : b ∈ l') :
    ∃ a ∈ l, R a b :=
  exists_right_of_mem h.flip hb

theorem map_eq_of_forall₂ {f : α → γ} {g : β → γ} (hfg : ∀ a b, R a b → f a = g b) {l : List α}
    {l' : List β} (h : List.Forall₂ R l l') : l.map f = l'.map g := by
  induction h with
  | nil => rfl
  | cons hr _ ih => rw [map_cons, map_cons, hfg _ _ hr, ih]

theorem eq_mapIdx {f : ℕ → List α → List β} (g : ℕ → α → β) (hnil : ∀ i, f i [] = [])
    (hcons : ∀ i a l, f i (a :: l) = g i a :: f (i + 1) l) (l : List α) :
    ∀ i, f i l = l.mapIdx fun j => g (i + j) := by
  induction l with
  | nil => exact hnil
  | cons a l ih =>
    intro i
    rw [hcons, ih, mapIdx_cons]
    simp only [Nat.add_zero, Nat.add_right_comm i, ← Nat.add_assoc]

end Lib
