/-
  Code with a log.  The state is joined by the list of what was written to the log, which nothing takes back: not
  an error, and not a rollback of the state.
-/
import TerpCore.Lib.Proc

namespace Lib

open List

namespace Proc

variable {σ ε α β γ ω : Type}

def log (w : ω) : Proc (σ × List ω) ε Unit := fun s => (.ok (), s.1, s.2 ++ [w])

/-- Code that does not know of the log. -/
def unlogged (p : Proc σ ε α) : Proc (σ × List ω) ε α := fun s => ((p s.1).1, (p s.1).2, s.2)

/-- With a log, the state is adjusted and the log is kept. -/
def adjustLogged (f : σ → Exit ε α → σ → σ) (q : Proc (σ × List ω) ε α) : Proc (σ × List ω) ε α := fun s =>
  ((q s).1, f s.1 (q s).1 (q s).2.1, (q s).2.2)

/-- `q` is `p` with a log: it ends as `p` does, and all it adds to the log has `P`. -/
def Logs (P : ω → Prop) (p : Proc σ ε α) (q : Proc (σ × List ω) ε α) : Prop :=
  ∀ s ws, ∃ added, q (s, ws) = ((p s).1, (p s).2, ws ++ added) ∧ ∀ w ∈ added, P w

section logs

variable {P : ω → Prop}

variable {p : Proc σ ε α} {q : Proc (σ × List ω) ε α}

theorem Logs.mono {Q : ω → Prop} (h : Logs P p q) (hPQ : ∀ w, P w → Q w) : Logs Q p q := by
  intro s ws
  obtain ⟨added, hq, hadded⟩ := h s ws
  exact ⟨added, hq, fun w hw => hPQ w (hadded w hw)⟩

theorem logs_unlogged (p : Proc σ ε α) : Logs P p (unlogged p) := by
  intro s ws
  exact ⟨[], by rw [append_nil]; rfl, by simp⟩

theorem logs_pure (a : α) : Logs P (pure a : Proc σ ε α) (pure a) := logs_unlogged (pure a)

theorem logs_fail (e : ε) : Logs P (fail e : Proc σ ε α) (fail e) := logs_unlogged (fail e)

theorem logs_ofOutcome (x : Outcome ε α) : Logs P (ofOutcome x : Proc σ ε α) (ofOutcome x) := by
  intro s ws
  refine ⟨[], ?_, by simp⟩
  cases x with
  | ok a => simp
  | error | panicked => simp [ofOutcome]

theorem logs_require (b : Bool) (e : ε) : Logs P (require b e : Proc σ ε Unit) (require b e) := by
  cases b with
  | true => exact logs_pure ()
  | false => exact logs_fail e

theorem Logs.log {w : ω} (h : Logs P p q) (hw : P w) : Logs P p (log w >>= fun _ => q) := by
  intro s ws
  obtain ⟨added, hq, hadded⟩ := h s (ws ++ [w])
  refine ⟨w :: added, ?_, ?_⟩
  · show q (s, ws ++ [w]) = _
    rw [hq, append_assoc, singleton_append]
  · intro v hv
    rcases mem_cons.mp hv with rfl | hv
    · exact hw
    · exact hadded v hv

theorem Logs.bind {f : α → Proc σ ε β} {g : α → Proc (σ × List ω) ε β} (h : Logs P p q)
    (hf : ∀ s a t, p s = (.ok a, t) → Logs P (f a) (g a)) :
    Logs P (p >>= f) (q >>= g) := by
  intro s ws
  obtain ⟨added, hq, hadded⟩ := h s ws
  rcases hp : p s with ⟨x, t⟩
  rw [hp] at hq
  cases x with
  | ok a =>
    obtain ⟨added', hg, hadded'⟩ := hf s a t hp t (ws ++ added)
    refine ⟨added ++ added', ?_, ?_⟩
    · rw [bind_of_ok hq, hg, bind_of_ok hp, append_assoc]
    · intro w hw
      rcases mem_append.mp hw with hw | hw
      · exact hadded w hw
      · exact hadded' w hw
  | error e | outOfGas | panicked => exact ⟨added, by rw [bind_apply, bind_apply, hp, hq], hadded⟩

theorem Logs.adjust (h : Logs P p q) (f : σ → Exit ε α → σ → σ) : Logs P (adjust f p) (adjustLogged f q) := by
  intro s ws
  obtain ⟨added, hq, hadded⟩ := h s ws
  exact ⟨added, by rw [adjustLogged, hq]; rfl, hadded⟩

theorem Logs.mapError (h : Logs P p q) (g : ε → ε) : Logs P (mapError g p) (mapError g q) := by
  intro s ws
  obtain ⟨added, hq, hadded⟩ := h s ws
  refine ⟨added, ?_, hadded⟩
  rcases hp : p s with ⟨x, t⟩
  cases x <;> simp [Proc.mapError, hp, hq]

theorem Logs.catchError {handle : ε → Proc σ ε α} {handle' : ε → Proc (σ × List ω) ε α} (h : Logs P p q)
    (hhandle : ∀ e, Logs P (handle e) (handle' e)) :
    Logs P (catchError p handle) (catchError q handle') := by
  intro s ws
  obtain ⟨added, hq, hadded⟩ := h s ws
  rcases hp : p s with ⟨x, t⟩
  rw [hp] at hq
  cases x with
  | error e =>
    obtain ⟨added', hg, hadded'⟩ := hhandle e t (ws ++ added)
    refine ⟨added ++ added', ?_, ?_⟩
    · rw [catchError_of_error hq, hg, catchError_of_error hp, append_assoc]
    · intro w hw
      rcases mem_append.mp hw with hw | hw
      · exact hadded w hw
      · exact hadded' w hw
  | ok a | outOfGas | panicked => exact ⟨added, by simp [Proc.catchError, hp, hq], hadded⟩

theorem logs_forEach {f : ℕ → α → Proc σ ε γ} {g : ℕ → β → Proc (σ × List ω) ε γ} {as : List α} {bs : List β}
    (hlen : as.length = bs.length) :
    ∀ i, (∀ j a b, as[j]? = some a → bs[j]? = some b → Logs P (f (i + j) a) (g (i + j) b)) →
      Logs P (forEach f i as) (forEach g i bs) := by
  induction as generalizing bs with
  | nil =>
    intro i _
    obtain rfl : bs = [] := eq_nil_of_length_eq_zero hlen.symm
    exact logs_pure []
  | cons a as ih =>
    intro i hbody
    obtain ⟨b, bs, rfl⟩ : ∃ b bs', bs = b :: bs' := exists_cons_of_length_eq_add_one hlen.symm
    refine (hbody 0 a b rfl rfl).bind fun _ _ _ _ => ?_
    refine (ih (Nat.succ.inj hlen) (i + 1) fun j a' b' ha hb => ?_).bind fun _ _ _ _ => logs_pure _
    have hj := hbody (j + 1) a' b' ha hb
    rwa [show i + (j + 1) = i + 1 + j by omega] at hj

end logs

end Proc

end Lib
