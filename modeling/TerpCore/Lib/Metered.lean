/-
  Code with a count of the work it does: a value, and what it took to get it, in an additive monoid.  The value
  alone is the code without the count.
-/
import Mathlib.Algebra.Group.Prod

namespace Lib

structure Metered (ω α : Type) where
  val : α
  work : ω

namespace Metered

variable {ω α β : Type}

instance [AddMonoid ω] : Monad (Metered ω) where
  pure a := ⟨a, 0⟩
  bind x f := ⟨(f x.val).val, x.work + (f x.val).work⟩

def charge (w : ω) : Metered ω Unit := ⟨(), w⟩

@[simp] theorem val_charge (w : ω) : (charge w).val = () := rfl

@[simp] theorem work_charge (w : ω) : (charge w).work = w := rfl

variable [AddMonoid ω]

@[simp] theorem val_pure (a : α) : (pure a : Metered ω α).val = a := rfl

@[simp] theorem work_pure (a : α) : (pure a : Metered ω α).work = 0 := rfl

@[simp] theorem val_bind (x : Metered ω α) (f : α → Metered ω β) : (x >>= f).val = (f x.val).val := rfl

@[simp] theorem work_bind (x : Metered ω α) (f : α → Metered ω β) : (x >>= f).work = x.work + (f x.val).work := rfl

end Metered

end Lib
