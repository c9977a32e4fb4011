/-
  Strings cut at a separator byte, and put together again.
-/
import TerpCore.Lib.Bytes

namespace Lib

open List

variable {sep : UInt8}

def split (sep : UInt8) : Bytes → List Bytes
  | [] => [[]]
  | b :: bs =>
    if b = sep then [] :: split sep bs
    else match split sep bs with
      | [] => [[b]]
      | part :: parts => (b :: part) :: parts

def join (sep : UInt8) : List Bytes → Bytes
  | [] => []
  | [part] => part
  | part :: rest => part ++ sep :: join sep rest

@[simp] theorem join_cons_cons (part next : Bytes) (rest : List Bytes) :
    join sep (part :: next :: rest) = part ++ sep :: join sep (next :: rest) := rfl

@[simp] theorem join_singleton (part : Bytes) : join sep [part] = part := rfl

theorem split_ne_nil (sep : UInt8) (s : Bytes) : split sep s ≠ [] := by
  cases s with
  | nil => simp [split]
  | cons =>
    rw [split]
    split
    · simp
    · split <;> simp

theorem split_cons_of_ne {b : UInt8} (hb : b ≠ sep) (bs : Bytes) :
    ∃ part parts, split sep bs = part :: parts ∧ split sep (b :: bs) = (b :: part) :: parts := by
  obtain ⟨part, parts, heq⟩ := exists_cons_of_ne_nil (split_ne_nil sep bs)
  exact ⟨part, parts, heq, by rw [split, if_neg hb, heq]⟩

theorem split_append {part : Bytes} (hpart : sep ∉ part) (rest : Bytes) :
    split sep (part ++ sep :: rest) = part :: split sep rest := by
  induction part with
  | nil => rw [nil_append, split, if_pos rfl]
  | cons b bs ih =>
    rw [mem_cons, not_or] at hpart
    obtain ⟨p, ps, heq, hcons⟩ := split_cons_of_ne (Ne.symm hpart.1) (bs ++ sep :: rest)
    rw [ih hpart.2] at heq
    cases heq
    exact hcons

theorem join_split (sep : UInt8) (s : Bytes) : join sep (split sep s) = s := by
  induction s with
  | nil => rfl
  | cons b bs ih =>
    by_cases hb : b = sep
    · subst hb
      rw [split, if_pos rfl]
      obtain ⟨part, parts, hrest⟩ := exists_cons_of_ne_nil (split_ne_nil b bs)
      rw [hrest, join_cons_cons, ← hrest, ih, nil_append]
    · obtain ⟨part, parts, heq, hcons⟩ := split_cons_of_ne hb bs
      rw [hcons, ← ih, heq]
      cases parts <;> rfl

theorem not_mem_of_mem_split {part s : Bytes} (h : part ∈ split sep s) : sep ∉ part := by
  induction s generalizing part with
  | nil =>
    obtain rfl := mem_singleton.mp h
    exact not_mem_nil
  | cons b bs ih =>
    by_cases hb : b = sep
    · rw [split, if_pos hb] at h
      rcases mem_cons.mp h with rfl | h
      · exact not_mem_nil
      · exact ih h
    · obtain ⟨p, ps, heq, hcons⟩ := split_cons_of_ne hb bs
      rw [hcons] at h
      rcases mem_cons.mp h with rfl | h
      · rw [mem_cons, not_or]
        exact ⟨Ne.symm hb, ih (heq ▸ mem_cons_self)⟩
      · exact ih (heq ▸ mem_cons_of_mem _ h)

/-- Two strings with one separator-free ending each are equal only piece by piece. -/
theorem append_sep_inj_right {a b x y : Bytes} (hx : sep ∉ x) (hy : sep ∉ y)
    (h : a ++ sep :: x = b ++ sep :: y) : a = b ∧ x = y := by
  have hrev := congrArg (fun s : Bytes => split sep s.reverse) h
  simp only [reverse_append, reverse_cons, append_assoc, singleton_append] at hrev
  rw [split_append (by simpa using hx), split_append (by simpa using hy)] at hrev
  obtain ⟨hxy, -⟩ := List.cons.inj hrev
  obtain rfl := reverse_injective hxy
  exact ⟨append_cancel_right h, rfl⟩

/-! ## Pairs joined by a separator -/

/-- Two pairs are cut from one string at different separators. -/
def Ambiguous (sep : UInt8) (p q : Bytes × Bytes) : Prop :=
  (∃ mid, q.1 = p.1 ++ sep :: mid ∧ p.2 = mid ++ sep :: q.2) ∨
    ∃ mid, p.1 = q.1 ++ sep :: mid ∧ q.2 = mid ++ sep :: p.2

variable {p q : Bytes × Bytes}

theorem append_sep_eq_iff : p.1 ++ sep :: p.2 = q.1 ++ sep :: q.2 ↔ p = q ∨ Ambiguous sep p q := by
  constructor
  · intro h
    -- the longer of the two first parts continues with the separator of the other, or is no longer
    rcases append_eq_append_iff.mp h with ⟨mid, hq, hrest⟩ | ⟨mid, hp, hrest⟩
    · cases mid with
      | nil =>
        rw [append_nil] at hq
        exact .inl (Prod.ext hq.symm (List.cons.inj hrest).2)
      | cons b mid =>
        obtain ⟨rfl, hp⟩ := List.cons.inj hrest
        exact .inr (.inl ⟨mid, hq, hp⟩)
    · cases mid with
      | nil =>
        rw [append_nil] at hp
        exact .inl (Prod.ext hp (List.cons.inj hrest).2.symm)
      | cons b mid =>
        obtain ⟨rfl, hq⟩ := List.cons.inj hrest
        exact .inr (.inr ⟨mid, hp, hq⟩)
  · rintro (rfl | ⟨mid, hq, hp⟩ | ⟨mid, hp, hq⟩)
    · rfl
    · simp [hp, hq]
    · simp [hp, hq]

theorem not_ambiguous_self (sep : UInt8) (p : Bytes × Bytes) : ¬ Ambiguous sep p p := by
  rintro (⟨mid, h, -⟩ | ⟨mid, h, -⟩) <;> simpa using congrArg List.length h

/-- A pair is read back from the string exactly if no other cut gives it. -/
theorem append_sep_inj_iff : (p.1 ++ sep :: p.2 = q.1 ++ sep :: q.2 → p = q) ↔ ¬ Ambiguous sep p q := by
  rw [append_sep_eq_iff]
  constructor
  · intro h hambiguous
    obtain rfl := h (.inr hambiguous)
    exact not_ambiguous_self sep p hambiguous
  · exact fun h => Or.rec id fun hambiguous => absurd hambiguous h

theorem not_ambiguous_of_not_mem (hp : sep ∉ p.1) (hq : sep ∉ q.1) : ¬ Ambiguous sep p q := by
  rintro (⟨mid, h, -⟩ | ⟨mid, h, -⟩)
  · exact hq (by simp [h])
  · exact hp (by simp [h])

end Lib
