/-
  The outcome of a Go call: it returns, it returns an error, or it panics.
-/
import Mathlib.Data.List.Basic

namespace Lib

open List

/-- A call that yields an `α`, fails with an `ε`, or panics. -/
inductive Outcome (ε α : Type) where
  | ok (a : α)
  | error (e : ε)
  | panicked
  deriving DecidableEq, Repr

namespace Outcome

variable {ε α β : Type}

def bind (x : Outcome ε α) (f : α → Outcome ε β) : Outcome ε β :=
  match x with
  | ok a => f a
  | error e => error e
  | panicked => panicked

instance : Monad (Outcome ε) where
  pure := ok
  bind := bind

/-- Panics on `none`. -/
def ofOption : Option α → Outcome ε α
  | some a => ok a
  | none => panicked

/-- `if err != nil { return err }`, where `none` is the failure. -/
def demand (o : Option α) (e : ε) : Outcome ε α :=
  match o with
  | some a => ok a
  | none => error e

/-- `if !b { return err }`. -/
def require (b : Bool) (e : ε) : Outcome ε Unit := if b then ok () else error e

def isOk : Outcome ε α → Bool
  | ok _ => true
  | _ => false

/-- What a transaction leaves behind: its state if it returned, and the old state otherwise. -/
def orElse : Outcome ε α → α → α
  | ok a, _ => a
  | _, s => s

@[simp] theorem pure_eq (a : α) : (pure a : Outcome ε α) = ok a := rfl

@[simp] theorem ok_bind (a : α) (f : α → Outcome ε β) : (ok a >>= f) = f a := rfl

@[simp] theorem error_bind (e : ε) (f : α → Outcome ε β) : (error e >>= f) = error e := rfl

@[simp] theorem panicked_bind (f : α → Outcome ε β) : (panicked >>= f) = panicked := rfl

theorem bind_assoc {γ : Type} (x : Outcome ε α) (f : α → Outcome ε β) (g : β → Outcome ε γ) :
    (x >>= f >>= g) = x >>= fun a => f a >>= g := by
  cases x <;> rfl

variable {x : Outcome ε α} {f : α → Outcome ε β} {o : Option α} {e : ε} {b : Bool} {Q : α → Prop}

/-- What holds before a transaction and of the state it returns holds of what it leaves behind. -/
theorem orElse_elim {P : α → Prop} {s : α} (hs : P s) (hok : ∀ t, x = ok t → P t) : P (x.orElse s) := by
  cases x with
  | ok t => exact hok t rfl
  | error | panicked => exact hs

theorem bind_eq_ok {b : β} : (x >>= f) = ok b ↔ ∃ a, x = ok a ∧ f a = ok b := by
  cases x <;> simp

@[simp] theorem ofOption_eq_ok {a : α} : (ofOption o : Outcome ε α) = ok a ↔ o = some a := by
  cases o <;> simp [ofOption]

@[simp] theorem demand_eq_ok {a : α} : demand o e = ok a ↔ o = some a := by
  cases o <;> simp [demand]

@[simp] theorem require_eq_ok {u : Unit} : require b e = ok u ↔ b = true := by
  cases b <;> simp [require]

theorem bind_eq_panicked : (x >>= f) = panicked ↔ x = panicked ∨ ∃ a, x = ok a ∧ f a = panicked := by
  cases x <;> simp

@[simp] theorem ofOption_eq_panicked : (ofOption o : Outcome ε α) = panicked ↔ o = none := by
  cases o <;> simp [ofOption]

@[simp] theorem demand_ne_panicked : demand o e ≠ panicked := by
  cases o <;> simp [demand]

@[simp] theorem require_ne_panicked : require b e ≠ panicked := by
  cases b <;> simp [require]

theorem require_bind_eq_panicked {f : Unit → Outcome ε β} :
    (require b e >>= f) = panicked ↔ b = true ∧ f () = panicked := by
  cases b <;> simp [require]

theorem demand_bind_eq_panicked : (demand o e >>= f) = panicked ↔ ∃ a, o = some a ∧ f a = panicked := by
  cases o <;> simp [demand]

theorem isOk_iff : x.isOk = true ↔ ∃ a, x = ok a := by
  cases x <;> simp [isOk]

theorem require_of (h : b = true) (e : ε) : require b e = ok () := by
  rw [require, if_pos h]

/-! ## Computations that do not panic -/

/-- A computation returns or fails, and what it returns satisfies `Q`. -/
def Safe (x : Outcome ε α) (Q : α → Prop) : Prop :=
  match x with
  | ok a => Q a
  | error _ => True
  | panicked => False

@[simp] theorem safe_ok {a : α} : (ok a : Outcome ε α).Safe Q ↔ Q a := Iff.rfl

@[simp] theorem safe_error : (error e : Outcome ε α).Safe Q := trivial

@[simp] theorem safe_bind {Q : β → Prop} : (x >>= f).Safe Q ↔ x.Safe fun a => (f a).Safe Q := by
  cases x <;> exact Iff.rfl

@[simp] theorem safe_require {Q : Unit → Prop} : (require b e).Safe Q ↔ (b = true → Q ()) := by
  cases b <;> simp [require]

@[simp] theorem safe_ofOption : (ofOption o : Outcome ε α).Safe Q ↔ ∃ a, o = some a ∧ Q a := by
  cases o <;> simp [ofOption, Safe]

theorem safe_iff : x.Safe Q ↔ x ≠ panicked ∧ ∀ a, x = ok a → Q a := by
  cases x <;> simp [Safe]


/-! ## Loops -/

section loops

variable {σ : Type} {f : ℕ → σ → α → Outcome ε σ}

/-- `for i, a := range as { … }`, where the body may return an error. -/
def forEach (f : ℕ → σ → α → Outcome ε σ) (i : ℕ) (s : σ) : List α → Outcome ε σ
  | [] => ok s
  | a :: as => do
    let s ← f i s a
    forEach f (i + 1) s as

/-- A loop returns if its body does; `I` relates the state to what is left to do. -/
theorem forEach_returns {I : σ → List α → Prop} (hbody : ∀ i s a as, I s (a :: as) → ∃ s', f i s a = ok s' ∧ I s' as) :
    ∀ (as : List α) (i : ℕ) (s : σ), I s as → ∃ s', forEach f i s as = ok s' ∧ I s' []
  | [], _, s, h => ⟨s, rfl, h⟩
  | a :: as, i, s, h => by
    obtain ⟨s', hf, h'⟩ := hbody i s a as h
    obtain ⟨s'', hloop, h''⟩ := forEach_returns hbody as (i + 1) s' h'
    exact ⟨s'', by rw [forEach, hf, ok_bind, hloop], h''⟩

/-- The loop rule: `I` relates the state to what is left to do. -/
theorem forEach_rule {I : σ → List α → Prop} (hbody : ∀ i s a as s', f i s a = ok s' → I s (a :: as) → I s' as) :
    ∀ (as : List α) (i : ℕ) (s s' : σ), forEach f i s as = ok s' → I s as → I s' []
  | [], _, _, _, heq, h => ok.inj heq ▸ h
  | a :: as, i, s, s', heq, h => by
    obtain ⟨t, hf, heq⟩ := bind_eq_ok.mp heq
    exact forEach_rule hbody as (i + 1) t s' heq (hbody i s a as t hf h)

theorem forEach_eq_ok {I : σ → Prop} {P : α → Prop} (hbody : ∀ i s a s', f i s a = ok s' → I s → I s' ∧ P a) :
    ∀ (as : List α) (i : ℕ) (s s' : σ), forEach f i s as = ok s' → I s → I s' ∧ ∀ a ∈ as, P a
  | [], _, _, _, heq, h => ⟨ok.inj heq ▸ h, by simp⟩
  | a :: as, i, s, s', heq, h => by
    obtain ⟨t, hf, heq⟩ := bind_eq_ok.mp heq
    obtain ⟨ht, ha⟩ := hbody i s a t hf h
    obtain ⟨hs', has⟩ := forEach_eq_ok hbody as (i + 1) t s' heq ht
    exact ⟨hs', by simpa using ⟨ha, has⟩⟩

theorem forEach_safe {I : σ → Prop} {P : α → Prop} : ∀ (as : List α) (i : ℕ) (s : σ),
    (∀ i s, ∀ a ∈ as, I s → (f i s a).Safe fun s' => I s' ∧ P a) → I s →
      (forEach f i s as).Safe fun s' => I s' ∧ ∀ a ∈ as, P a
  | [], _, _, _, h => ⟨h, by simp⟩
  | a :: as, i, s, hbody, h => by
    have hstep := hbody i s a (by simp) h
    rw [forEach, safe_bind]
    rw [safe_iff] at hstep ⊢
    refine ⟨hstep.1, fun t ht => ?_⟩
    obtain ⟨hI, ha⟩ := hstep.2 t ht
    have hrest := forEach_safe as (i + 1) t (fun i s b hb => hbody i s b (by simp [hb])) hI
    rw [safe_iff] at hrest ⊢
    exact ⟨hrest.1, fun s' hs' => ⟨(hrest.2 s' hs').1, by simpa using ⟨ha, (hrest.2 s' hs').2⟩⟩⟩

theorem forEach_foldl {τ : Type} {g : σ → τ} {w : τ → α → τ} {P : α → Prop}
    (hbody : ∀ i s a s', P a → f i s a = ok s' → g s' = w (g s) a) :
    ∀ (as : List α) (i : ℕ) (s s' : σ), (∀ a ∈ as, P a) → forEach f i s as = ok s' → g s' = as.foldl w (g s)
  | [], _, _, _, _, heq => congrArg g (ok.inj heq).symm
  | a :: as, i, s, s', hP, heq => by
    obtain ⟨t, hf, heq⟩ := bind_eq_ok.mp heq
    rw [forEach_foldl hbody as (i + 1) t s' (fun b hb => hP b (by simp [hb])) heq,
      hbody i s a t (hP a (by simp)) hf, foldl_cons]

theorem forEach_eq_foldl {w : σ → α → σ} : ∀ (as : List α) (i : ℕ) (s : σ),
    (∀ i s, ∀ a ∈ as, f i s a = ok (w s a)) → forEach f i s as = ok (as.foldl w s)
  | [], _, _, _ => rfl
  | a :: as, i, s, h => by
    rw [forEach, h i s a (by simp), ok_bind, foldl_cons,
      forEach_eq_foldl as (i + 1) (w s a) fun i s b hb => h i s b (by simp [hb])]

theorem forEach_collect {g : α → Outcome ε β} {b : α → β} : ∀ (as : List α) (i : ℕ) (bs : List β),
    (∀ a ∈ as, g a = ok (b a)) →
      forEach (fun _ bs a => do
        let x ← g a
        return bs ++ [x]) i bs as = ok (bs ++ as.map b)
  | [], _, bs, _ => by rw [forEach, map_nil, append_nil]
  | a :: as, i, bs, h => by
    rw [forEach, h a (by simp), ok_bind, pure_eq, ok_bind,
      forEach_collect as (i + 1) (bs ++ [b a]) fun a ha => h a (by simp [ha])]
    simp

/-- A loop whose body takes keys that are not in use returns only on elements with new keys of their
own. -/
theorem forEach_fresh {κ : Type} {U : σ → κ → Prop} {K : α → κ} (hbody : ∀ i s a s', f i s a = ok s' → ¬ U s (K a) ∧
      ∀ x, U s' x ↔ x = K a ∨ U s x) :
    ∀ (as : List α) (i : ℕ) (s s' : σ), forEach f i s as = ok s' → (as.map K).Nodup ∧ ∀ a ∈ as, ¬ U s (K a)
  | [], _, _, _, _ => ⟨nodup_nil, by simp⟩
  | a :: as, i, s, s', heq => by
    obtain ⟨t, hf, heq⟩ := bind_eq_ok.mp heq
    obtain ⟨hnew, hused⟩ := hbody i s a t hf
    obtain ⟨hnodup, has⟩ := forEach_fresh hbody as (i + 1) t s' heq
    refine ⟨nodup_cons.mpr ⟨?_, hnodup⟩, ?_⟩
    · rw [mem_map]
      rintro ⟨b, hb, hkey⟩
      exact has b hb ((hused _).mpr (.inl hkey))
    · intro b hb
      rcases mem_cons.mp hb with rfl | hb
      · exact hnew
      · exact fun h => has b hb ((hused _).mpr (.inr h))

end loops

end Outcome

end Lib
