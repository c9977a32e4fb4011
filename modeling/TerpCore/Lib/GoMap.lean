/-
  Go maps and the orders in which `range` may visit them.

  Go leaves the order unspecified, so a loop takes it as a parameter.
-/
import Mathlib.Data.List.AList

namespace Lib

/-- A Go `map[κ]ν`. -/
abbrev GoMap (κ ν : Type) := AList (fun _ : κ => ν)

namespace GoMap

variable {κ ν : Type}

def items (m : GoMap κ ν) : List (κ × ν) := m.entries.map fun e => (e.1, e.2)

theorem mem_items [DecidableEq κ] {m : GoMap κ ν} {k : κ} {v : ν} : (k, v) ∈ m.items ↔ m.lookup k = some v := by
  rw [items, List.mem_map, ← Option.mem_def, AList.mem_lookup_iff]
  constructor
  · rintro ⟨⟨k', v'⟩, hmem, h⟩
    cases h
    exact hmem
  · intro h
    exact ⟨⟨k, v⟩, h, rfl⟩

/-- One choice of the order in which `range` visits each map. -/
structure RangeOrder (κ ν : Type) where
  items : GoMap κ ν → List (κ × ν)
  perm : ∀ m, (items m).Perm m.items

namespace RangeOrder

/-- The order in which the entries happen to be kept. -/
def kept : RangeOrder κ ν := ⟨GoMap.items, fun _ => .refl _⟩

/-- The reverse of that order. -/
def reversed : RangeOrder κ ν := ⟨fun m => m.items.reverse, fun m => m.items.reverse_perm⟩

open Classical in
/-- An order that visits the map `m` as the list `l`. -/
noncomputable def visiting (m : GoMap κ ν) (l : List (κ × ν)) (h : l.Perm m.items) :
    RangeOrder κ ν where
  items m' := if m' = m then l else m'.items
  perm m' := by
    split_ifs with hm
    · rw [hm]
      exact h
    · exact .refl _

@[simp] theorem visiting_items (m : GoMap κ ν) (l : List (κ × ν)) (h : l.Perm m.items) :
    (visiting m l h).items m = l := by
  simp [visiting]

theorem mem_items [DecidableEq κ] (o : RangeOrder κ ν) {m : GoMap κ ν} {k : κ} {v : ν} :
    (k, v) ∈ o.items m ↔ m.lookup k = some v := by
  rw [(o.perm m).mem_iff, GoMap.mem_items]

end RangeOrder

end GoMap

end Lib
