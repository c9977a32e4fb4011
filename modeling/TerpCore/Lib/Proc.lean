/-
  Code that works on a state and may stop: it returns, it returns an error, it runs out of gas or it panics.
  The state it had when it stopped is kept.
-/
import TerpCore.Lib.Outcome
import Mathlib.Algebra.Order.Ring.Int
import Mathlib.Order.Defs.Unbundled

namespace Lib

open List

inductive Exit (ε α : Type) where
  | ok (a : α)
  | error (e : ε)
  /-- a panic with `ErrorOutOfGas` -/
  | outOfGas
  /-- any other panic -/
  | panicked
  deriving DecidableEq

def Exit.isOk {ε α : Type} : Exit ε α → Bool
  | .ok _ => true
  | _ => false

def Proc (σ ε α : Type) := σ → Exit ε α × σ

namespace Proc

variable {σ τ ε α β : Type}

def bind (p : Proc σ ε α) (f : α → Proc σ ε β) : Proc σ ε β := fun s =>
  match p s with
  | (.ok a, t) => f a t
  | (.error e, t) => (.error e, t)
  | (.outOfGas, t) => (.outOfGas, t)
  | (.panicked, t) => (.panicked, t)

instance : Monad (Proc σ ε) where
  pure a := fun s => (.ok a, s)
  bind := bind

def fail (e : ε) : Proc σ ε α := fun s => (.error e, s)

def require (b : Bool) (e : ε) : Proc σ ε Unit := if b then pure () else fail e

/-- A call that does not touch the state. -/
def ofOutcome : Outcome ε α → Proc σ ε α
  | .ok a => pure a
  | .error e => fail e
  | .panicked => fun s => (.panicked, s)

def get : Proc σ ε σ := fun s => (.ok s, s)

def modify (f : σ → σ) : Proc σ ε Unit := fun s => (.ok (), f s)

/-- A write that may fail, and then writes nothing. -/
def write (f : σ → Outcome ε σ) : Proc σ ε Unit := fun s =>
  match f s with
  | .ok t => (.ok (), t)
  | .error e => (.error e, s)
  | .panicked => (.panicked, s)

/-- Code on a part of the state. -/
def zoom (view : σ → τ) (put : σ → τ → σ) (p : Proc τ ε α) : Proc σ ε α := fun s =>
  ((p (view s)).1, put s (p (view s)).2)

/-- Code whose last state is adjusted, given how it ended and the state it began in. -/
def adjust (f : σ → Exit ε α → σ → σ) (p : Proc σ ε α) : Proc σ ε α := fun s => ((p s).1, f s (p s).1 (p s).2)

/-- Other errors for those that code returns. -/
def mapError (g : ε → ε) (p : Proc σ ε α) : Proc σ ε α := fun s =>
  match p s with
  | (.error e, t) => (.error (g e), t)
  | r => r

/-- Code that goes on after an error. -/
def catchError (p : Proc σ ε α) (handle : ε → Proc σ ε α) : Proc σ ε α := fun s =>
  match p s with
  | (.error e, t) => handle e t
  | r => r

/-- `for i, a := range as { … }`. -/
def forEach (f : ℕ → α → Proc σ ε β) (i : ℕ) : List α → Proc σ ε (List β)
  | [] => pure []
  | a :: as => do
    let b ← f i a
    let bs ← forEach f (i + 1) as
    pure (b :: bs)

/-! ## What it returns -/

@[simp] theorem pure_apply (a : α) (s : σ) : (pure a : Proc σ ε α) s = (.ok a, s) := rfl

@[simp] theorem fail_apply (e : ε) (s : σ) : (fail e : Proc σ ε α) s = (.error e, s) := rfl

@[simp] theorem ofOutcome_ok (a : α) : (ofOutcome (.ok a) : Proc σ ε α) = pure a := rfl

theorem bind_apply (p : Proc σ ε α) (f : α → Proc σ ε β) (s : σ) : (p >>= f) s = match p s with
      | (.ok a, t) => f a t
      | (.error e, t) => (.error e, t)
      | (.outOfGas, t) => (.outOfGas, t)
      | (.panicked, t) => (.panicked, t) := rfl

variable {p : Proc σ ε α} {s t : σ} {a : α} {f g : ℕ → α → Proc σ ε β}

theorem bind_of_ok (h : p s = (.ok a, t)) (f : α → Proc σ ε β) : (p >>= f) s = f a t := by
  rw [bind_apply, h]

/-- Equal halves give equal sequences, and the second ones need only agree where the first can end. -/
theorem bind_congr_apply {f g : α → Proc σ ε β}
    (h : ∀ a t, p s = (.ok a, t) → f a t = g a t) : (p >>= f) s = (p >>= g) s := by
  rcases hp : p s with ⟨x, t⟩
  cases x with
  | ok a => rw [bind_of_ok hp, bind_of_ok hp, h a t hp]
  | error e | outOfGas | panicked => simp [bind_apply, hp]

theorem bind_congr_left {q : Proc σ ε α} (h : p s = q t) (f : α → Proc σ ε β) : (p >>= f) s = (q >>= f) t := by
  rw [bind_apply, bind_apply, h]

instance : LawfulMonad (Proc σ ε) := LawfulMonad.mk' (Proc σ ε)
  (fun p => by
    funext s
    change (p >>= fun a => pure a) s = p s
    rcases hp : p s with ⟨x, t⟩
    cases x <;> simp [bind_apply, hp])
  (fun _ _ => rfl)
  (fun p f g => by
    funext s
    rcases hp : p s with ⟨x, t⟩
    cases x <;> simp [bind_apply, hp])

theorem isOk_bind (h : (p s).1.isOk = false) (f : α → Proc σ ε β) :
    ((p >>= f) s).1.isOk = false ∧ ((p >>= f) s).2 = (p s).2 := by
  rcases hp : p s with ⟨x, t⟩
  rw [hp] at h
  cases x with
  | ok a => cases h
  | error e | outOfGas | panicked => simp [bind_apply, hp, Exit.isOk]

theorem eq_ok_of_isOk (h : (p s).1.isOk = true) : ∃ a, p s = (.ok a, (p s).2) := by
  rcases hp : p s with ⟨x, t⟩
  rw [hp] at h
  cases x with
  | ok a => exact ⟨a, rfl⟩
  | error e | outOfGas | panicked => cases h

theorem bind_eq_ok {f : α → Proc σ ε β} {b : β} :
    (p >>= f) s = (.ok b, t) ↔ ∃ a r, p s = (.ok a, r) ∧ f a r = (.ok b, t) := by
  constructor
  · intro h
    cases hp : (p s).1.isOk with
    | true =>
      obtain ⟨a, ha⟩ := eq_ok_of_isOk hp
      rw [bind_of_ok ha] at h
      exact ⟨a, _, ha, h⟩
    | false =>
      have hfail := (isOk_bind hp f).1
      rw [h] at hfail
      cases hfail
  · rintro ⟨a, r, ha, hf⟩
    rw [bind_of_ok ha, hf]

@[simp] theorem pure_eq_ok {b : α} : (pure a : Proc σ ε α) s = (.ok b, t) ↔ a = b ∧ s = t := by
  simp

@[simp] theorem ofOutcome_eq_ok {x : Outcome ε α} : (ofOutcome x : Proc σ ε α) s = (.ok a, t) ↔ x = .ok a ∧ s = t := by
  cases x <;> simp [ofOutcome]

@[simp] theorem ofOutcome_state (x : Outcome ε α) (s : σ) : ((ofOutcome x : Proc σ ε α) s).2 = s := by
  cases x <;> rfl

@[simp] theorem require_eq_ok {b : Bool} {e : ε} {u : Unit} :
    (require b e : Proc σ ε Unit) s = (.ok u, t) ↔ b = true ∧ s = t := by
  cases b <;> simp [require]

theorem zoom_eq_ok {view : σ → τ} {put : σ → τ → σ} {p : Proc τ ε α} :
    zoom view put p s = (.ok a, t) ↔ ∃ c, p (view s) = (.ok a, c) ∧ t = put s c := by
  constructor
  · intro h
    obtain ⟨hx, ht⟩ := Prod.mk.inj h
    exact ⟨_, Prod.ext hx rfl, ht.symm⟩
  · rintro ⟨c, hp, rfl⟩
    simp [zoom, hp]

@[simp] theorem mapError_eq_ok {g : ε → ε} : mapError g p s = (.ok a, t) ↔ p s = (.ok a, t) := by
  rcases hp : p s with ⟨x, r⟩
  cases x <;> simp [mapError, hp]

theorem catchError_of_ok (h : p s = (.ok a, t)) (handle : ε → Proc σ ε α) : catchError p handle s = (.ok a, t) := by
  simp [catchError, h]

theorem catchError_of_error {e : ε} (h : p s = (.error e, t))
    (handle : ε → Proc σ ε α) : catchError p handle s = handle e t := by
  simp [catchError, h]

/-- The state after a sequence is that after its first half, if that does not return. -/
theorem state_bind {Q : σ → Prop} {f : α → Proc σ ε β} (hp : Q (p s).2)
    (hf : ∀ a t, p s = (.ok a, t) → Q (f a t).2) : Q ((p >>= f) s).2 := by
  cases h : (p s).1.isOk with
  | true =>
    obtain ⟨a, ha⟩ := eq_ok_of_isOk h
    rw [bind_of_ok ha]
    exact hf a _ ha
  | false =>
    rw [(isOk_bind h f).2]
    exact hp

/-- The code did not return, and left a state with `E`. -/
def Fails (E : σ → Prop) (r : Exit ε α × σ) : Prop := r.1.isOk = false ∧ E r.2

theorem Fails.bind {E : σ → Prop} (h : Fails E (p s)) (f : α → Proc σ ε β) : Fails E ((p >>= f) s) := by
  obtain ⟨hexit, hstate⟩ := isOk_bind h.1 f
  exact ⟨hexit, hstate ▸ h.2⟩

theorem bind_fails {E : σ → Prop} {f : α → Proc σ ε β} (hp : E (p s).2)
    (hf : ∀ a t, p s = (.ok a, t) → Fails E (f a t)) : Fails E ((p >>= f) s) := by
  cases h : (p s).1.isOk with
  | true =>
    obtain ⟨a, ha⟩ := eq_ok_of_isOk h
    rw [bind_of_ok ha]
    exact hf a _ ha
  | false => exact Fails.bind ⟨h, hp⟩ f

/-- The code returned with `Q`, or it did not return and left a state with `E`. -/
def ReturnsOr (E : σ → Prop) (Q : α → σ → Prop) (r : Exit ε α × σ) : Prop :=
  (∃ a, r.1 = .ok a ∧ Q a r.2) ∨ Fails E r

section returnsOr

variable {E : σ → Prop} {Q : α → σ → Prop}

theorem returnsOr_pure {a : α} {s : σ} (h : Q a s) : ReturnsOr E Q ((pure a : Proc σ ε α) s) :=
  .inl ⟨a, rfl, h⟩

theorem ReturnsOr.imp {Q' : α → σ → Prop} {r : Exit ε α × σ} (hr : ReturnsOr E Q r) (h : ∀ a s, Q a s → Q' a s) :
    ReturnsOr E Q' r := by
  rcases hr with ⟨a, hok, hq⟩ | hfails
  · exact .inl ⟨a, hok, h a _ hq⟩
  · exact .inr hfails

theorem ReturnsOr.bind {Q' : β → σ → Prop} {p : Proc σ ε α} {f : α → Proc σ ε β} {s : σ}
    (hp : ReturnsOr E Q (p s)) (hf : ∀ a t, Q a t → ReturnsOr E Q' (f a t)) : ReturnsOr E Q' ((p >>= f) s) := by
  rcases hp with ⟨a, hok, hq⟩ | hfails
  · rw [bind_of_ok (Prod.ext hok rfl)]
    exact hf a _ hq
  · exact .inr (hfails.bind f)

theorem ReturnsOr.catchError {p : Proc σ ε α} {handle : ε → Proc σ ε α} {s : σ} (hp : ReturnsOr E Q (p s))
    (hhandle : ∀ e t, E t → Fails E (handle e t)) : ReturnsOr E Q (catchError p handle s) := by
  rcases h : p s with ⟨x, t⟩
  rw [h] at hp
  cases x with
  | error e =>
    rcases hp with ⟨a, hok, -⟩ | ⟨-, hstate⟩
    · cases hok
    · rw [catchError_of_error h]
      exact .inr (hhandle e t hstate)
  | ok a | outOfGas | panicked => simpa [Proc.catchError, h] using hp

/-- A loop, with an invariant on the elements done so far. -/
theorem returnsOr_forEach {I : List α → σ → Prop} {f : ℕ → α → Proc σ ε β} :
    ∀ {as : List α} {i : ℕ} {done : List α} {s : σ},
      (∀ i done s, ∀ a ∈ as, I done s → ReturnsOr E (fun _ t => I (done ++ [a]) t) (f i a s)) → I done s →
      ReturnsOr E (fun _ t => I (done ++ as) t) (forEach f i as s)
  | [], _, done, s, _, hs => returnsOr_pure (by rwa [append_nil])
  | a :: as, i, done, s, hf, hs => by
    refine (hf i done s a mem_cons_self hs).bind fun _ t ht => ?_
    refine (returnsOr_forEach (fun i done s b hb => hf i done s b (mem_cons_of_mem a hb)) ht).bind
      fun _ t' ht' => returnsOr_pure ?_
    rwa [append_assoc] at ht'

end returnsOr

/-- The code does what `x` says: it returns with the state of `x`, or its error in the state it began in, or panics.
-/
def Realizes (p : Proc σ ε Unit) (s : σ) : Outcome ε σ → Prop
  | .ok t => p s = (.ok (), t)
  | .error e => p s = (.error e, s)
  | .panicked => (p s).1 = .panicked

theorem Realizes.check {x : Outcome ε α} {f : α → Proc σ ε Unit} {g : α → Outcome ε σ}
    (h : ∀ a, x = .ok a → (f a).Realizes s (g a)) : (ofOutcome x >>= f).Realizes s (x >>= g) := by
  cases x with
  | ok a => exact h a rfl
  | error | panicked => exact rfl

theorem Realizes.writes {w : σ → Outcome ε σ} {p : Proc σ ε Unit} {g : σ → σ}
    (h : ∀ t, p t = (.ok (), g t)) : (write w >>= fun _ => p).Realizes s (w s >>= fun t => .ok (g t)) := by
  rcases hw : w s with t | e | _ <;> simp [Realizes, bind_apply, write, hw, h]

/-! ## Parts of the state and loops -/

section zoom

variable {view : σ → τ} {put : σ → τ → σ}
  (hview : ∀ s c, view (put s c) = c) (hput : ∀ s c d, put (put s c) d = put s d)
include hview hput

theorem zoom_bind (p : Proc τ ε α) (f : α → Proc τ ε β) (s : σ) :
    zoom view put (p >>= f) s = (zoom view put p >>= fun a => zoom view put (f a)) s := by
  rcases hp : p (view s) with ⟨x, c⟩
  cases x <;> simp [zoom, bind_apply, hp, hview, hput]

theorem zoom_forEach (hself : ∀ s, put s (view s) = s) (f : ℕ → α → Proc τ ε β) :
    ∀ (as : List α) (i : ℕ) (s : σ),
      zoom view put (forEach f i as) s = forEach (fun i a => zoom view put (f i a)) i as s
  | [], _, s => by simp [forEach, zoom, hself]
  | a :: as, i, s => by
    have hpure : ∀ (bs : List β) (t : σ),
        zoom view put (pure bs : Proc τ ε (List β)) t = (pure bs : Proc σ ε (List β)) t := by
      simp [zoom, hself]
    rw [forEach, zoom_bind hview hput]
    refine bind_congr_apply fun b t _ => ?_
    rw [zoom_bind hview hput, bind_congr_left (zoom_forEach hself f as (i + 1) t)]
    exact bind_congr_apply fun bs r _ => hpure (b :: bs) r

end zoom

theorem forEach_congr {P : σ → Prop} (h : ∀ i a s, P s → f i a s = g i a s)
    (hP : ∀ i a s b t, P s → g i a s = (.ok b, t) → P t) :
    ∀ (as : List α) (i : ℕ) (s : σ), P s → forEach f i as s = forEach g i as s
  | [], _, _, _ => rfl
  | a :: as, i, s, hs => by
    rw [forEach, bind_apply, h i a s hs]
    refine bind_congr_apply fun b t hb => ?_
    exact bind_congr_left (forEach_congr h hP as (i + 1) t (hP i a s b t hs hb)) _

theorem forEach_congr_mem {as : List α} (h : ∀ i, ∀ a ∈ as, f i a = g i a) : ∀ i, forEach f i as = forEach g i as := by
  induction as with
  | nil => exact fun _ => rfl
  | cons a as ih =>
    intro i
    rw [forEach, forEach, h i a mem_cons_self, ih fun j b hb => h j b (mem_cons_of_mem a hb)]

theorem forEach_eq_ok_results {P : β → Prop} (hf : ∀ i a s b t, f i a s = (.ok b, t) → P b) :
    ∀ {as : List α} {i : ℕ} {s t : σ} {bs : List β}, forEach f i as s = (.ok bs, t) → ∀ b ∈ bs, P b
  | [], _, _, _, _, h => by
    obtain ⟨rfl, -⟩ := pure_eq_ok.mp h
    simp
  | a :: as, i, s, t, bs, h => by
    obtain ⟨b, s₁, hfirst, hrest⟩ := bind_eq_ok.mp h
    obtain ⟨bs', s₂, hloop, hpure⟩ := bind_eq_ok.mp hrest
    obtain ⟨rfl, -⟩ := pure_eq_ok.mp hpure
    intro b' hb'
    rcases mem_cons.mp hb' with rfl | hmem
    · exact hf i a s b' s₁ hfirst
    · exact forEach_eq_ok_results hf hloop b' hmem

/-- A loop that returns has gone through a state before each element and one after the last. -/
theorem forEach_eq_ok_states :
    ∀ {as : List α} {i : ℕ} {s t : σ} {bs : List β}, forEach f i as s = (.ok bs, t) →
      ∃ states : ℕ → σ, states 0 = s ∧ states as.length = t ∧
        ∀ j a, as[j]? = some a → ∃ b, f (i + j) a (states j) = (.ok b, states (j + 1))
  | [], _, s, t, _, h => by
    obtain ⟨-, rfl⟩ := pure_eq_ok.mp h
    exact ⟨fun _ => s, rfl, rfl, by simp⟩
  | a :: as, i, s, t, bs, h => by
    obtain ⟨b, s₁, hfirst, hrest⟩ := bind_eq_ok.mp h
    obtain ⟨bs', s₂, hloop, hpure⟩ := bind_eq_ok.mp hrest
    obtain ⟨-, rfl⟩ := pure_eq_ok.mp hpure
    obtain ⟨states, hzero, hlast, hstep⟩ := forEach_eq_ok_states hloop
    refine ⟨fun j => Nat.casesOn j s states, rfl, hlast, fun j c hc => ?_⟩
    cases j with
    | zero =>
      cases hc
      refine ⟨b, ?_⟩
      show f i a s = (.ok b, states 0)
      rw [hfirst, hzero]
    | succ j =>
      obtain ⟨d, hd⟩ := hstep j c hc
      rw [show i + 1 + j = i + (j + 1) by omega] at hd
      exact ⟨d, hd⟩

/-! ## What it keeps -/

/-- However the code ends, its state is related to the one it began in. -/
def Keeps (R : σ → σ → Prop) (p : Proc σ ε α) : Prop := ∀ s, R s (p s).2

theorem Keeps.of_eq {R : σ → σ → Prop} {x : Exit ε α} (hp : Keeps R p) (h : p s = (x, t)) : R s t := by
  have hs := hp s
  rwa [h] at hs

/-- A part of the state is as it was. -/
def Same {γ : Type} (g : σ → γ) : σ → σ → Prop := fun s t => g t = g s

instance {γ : Type} (g : σ → γ) : Std.Refl (Same g) := ⟨fun _ => rfl⟩

instance {γ : Type} (g : σ → γ) : IsTrans σ (Same g) := ⟨fun _ _ _ h h' => h'.trans h⟩

/-- A property that held still holds. -/
def Preserving (P : σ → Prop) : σ → σ → Prop := fun s t => P s → P t

instance (P : σ → Prop) : Std.Refl (Preserving P) := ⟨fun _ => id⟩

instance (P : σ → Prop) : IsTrans σ (Preserving P) := ⟨fun _ _ _ h h' => h' ∘ h⟩

section keeps

variable {R : σ → σ → Prop} [Std.Refl R] [IsTrans σ R]

omit [IsTrans σ R] in
theorem keeps_pure (a : α) : Keeps R (pure a : Proc σ ε α) := fun s => refl_of R s

omit [IsTrans σ R] in
theorem keeps_get : Keeps R (get : Proc σ ε σ) := fun s => refl_of R s

omit [IsTrans σ R] in
theorem keeps_fail (e : ε) : Keeps R (fail e : Proc σ ε α) := fun s => refl_of R s

omit [IsTrans σ R] in
theorem keeps_ofOutcome (x : Outcome ε α) : Keeps R (ofOutcome x : Proc σ ε α) := by
  intro s
  cases x <;> exact refl_of R s

omit [IsTrans σ R] in
theorem keeps_require (b : Bool) (e : ε) : Keeps R (require b e : Proc σ ε Unit) := by
  intro s
  cases b <;> exact refl_of R s

variable {p : Proc σ ε α} {f : α → Proc σ ε β}

omit [Std.Refl R] in
/-- The second half of a sequence need only keep `R` for what the first can return. -/
theorem keeps_bind_of_ok (hp : Keeps R p) (hf : ∀ s a t, p s = (.ok a, t) → Keeps R (f a)) : Keeps R (p >>= f) := by
  intro s
  refine state_bind (hp s) fun a t h => ?_
  exact trans_of R (hp.of_eq h) (hf s a t h t)

omit [Std.Refl R] in
theorem keeps_bind (hp : Keeps R p) (hf : ∀ a, Keeps R (f a)) : Keeps R (p >>= f) :=
  keeps_bind_of_ok hp fun _ a _ _ => hf a

omit [Std.Refl R] [IsTrans σ R] in
theorem keeps_mapError {g : ε → ε} (hp : Keeps R p) : Keeps R (mapError g p) := by
  intro s
  have h := hp s
  rcases hs : p s with ⟨x, t⟩
  cases x <;> simpa [mapError, hs] using h

omit [Std.Refl R] in
theorem keeps_catchError {handle : ε → Proc σ ε α} (hp : Keeps R p)
    (hhandle : ∀ e, Keeps R (handle e)) : Keeps R (catchError p handle) := by
  intro s
  have h := hp s
  rcases hs : p s with ⟨x, t⟩
  rw [hs] at h
  cases x with
  | error e => simpa [catchError, hs] using trans_of R h (hhandle e t)
  | ok a | outOfGas | panicked => simpa [catchError, hs] using h

omit [Std.Refl R] [IsTrans σ R] in
theorem keeps_zoom {R' : τ → τ → Prop} {view : σ → τ} {put : σ → τ → σ} {p : Proc τ ε α}
    (hp : Keeps R' p) (h : ∀ s c, R' (view s) c → R s (put s c)) : Keeps R (zoom view put p) :=
  fun s => h s _ (hp (view s))

theorem keeps_forEach {f : ℕ → α → Proc σ ε β} :
    ∀ (as : List α) (i : ℕ), (∀ i, ∀ a ∈ as, Keeps R (f i a)) → Keeps R (forEach f i as)
  | [], _, _ => keeps_pure _
  | a :: as, i, hf =>
    keeps_bind (hf i a mem_cons_self) fun _ =>
      keeps_bind (keeps_forEach as (i + 1) fun j b hb => hf j b (mem_cons_of_mem a hb)) fun _ =>
        keeps_pure _

theorem forEach_eq_ok_mem {f : ℕ → α → Proc σ ε β} (hf : ∀ i a, Keeps R (f i a)) :
    ∀ {as : List α} {i : ℕ} {s t : σ} {bs : List β}, forEach f i as s = (.ok bs, t) →
      ∀ a ∈ as, ∃ j r b r', R s r ∧ f j a r = (.ok b, r')
  | [], _, _, _, _, _ => by simp
  | a :: as, i, s, t, bs, h => by
    obtain ⟨b, s₁, hfirst, hrest⟩ := bind_eq_ok.mp h
    obtain ⟨bs', s₂, hloop, -⟩ := bind_eq_ok.mp hrest
    have hs₁ : R s s₁ := (hf i a).of_eq hfirst
    intro a' ha'
    rcases mem_cons.mp ha' with rfl | hmem
    · exact ⟨i, s, b, s₁, refl_of R s, hfirst⟩
    · obtain ⟨j, r, b', r', hr, hbody⟩ := forEach_eq_ok_mem hf hloop a' hmem
      exact ⟨j, r, b', r', trans_of R hs₁ hr, hbody⟩

end keeps

end Proc

/-! ## Gas -/

/-- A gas meter of the SDK; an infinite one has no limit. -/
structure GasMeter where
  limit : Option UInt64
  consumed : UInt64
  deriving DecidableEq

namespace GasMeter

def new (limit : UInt64) : GasMeter := ⟨some limit, 0⟩

/-- `g.consumed > g.limit`. -/
def isPastLimit (m : GasMeter) : Bool :=
  match m.limit with
  | none => false
  | some limit => limit < m.consumed

def consumeGas {ε : Type} (amount : UInt64) : Proc GasMeter ε Unit := fun m =>
  if 2 ^ 64 ≤ m.consumed.toNat + amount.toNat then (.panicked, { m with consumed := -1 })
  else
    let m' := { m with consumed := m.consumed + amount }
    (if m'.isPastLimit then .outOfGas else .ok (), m')

theorem toNat_min (a b : UInt64) : (min a b).toNat = min a.toNat b.toNat := by
  change (if a ≤ b then a else b).toNat = _
  split_ifs with hle
  · rw [Nat.min_eq_left (UInt64.le_iff_toNat_le.mp hle)]
  · rw [Nat.min_eq_right (Nat.le_of_not_le (mt UInt64.le_iff_toNat_le.mpr hle))]

/-- The most a meter can count to. -/
def capacity (m : GasMeter) : ℕ := m.limit.elim (2 ^ 64 - 1) UInt64.toNat

theorem capacity_lt (m : GasMeter) : m.capacity < 2 ^ 64 := by
  unfold capacity
  cases m.limit with
  | none => decide
  | some limit => exact limit.toNat_lt

section room

variable {m : GasMeter} {amount : UInt64} (h : m.consumed.toNat + amount.toNat ≤ m.capacity)
include h

theorem toNat_consumed_add : (m.consumed + amount).toNat = m.consumed.toNat + amount.toNat := by
  have hlt := m.capacity_lt
  rw [UInt64.toNat_add, Nat.mod_eq_of_lt (by omega)]

theorem consumeGas_of_le {ε : Type} :
    (consumeGas amount m : Exit ε Unit × GasMeter) = (.ok (), { m with consumed := m.consumed + amount }) := by
  have hlt := m.capacity_lt
  have hpast : ({ m with consumed := m.consumed + amount } : GasMeter).isPastLimit = false := by
    obtain ⟨limit, consumed⟩ := m
    cases limit with
    | none => rfl
    | some limit =>
      have hsum := toNat_consumed_add h
      simp only [capacity, Option.elim] at h
      simp only [isPastLimit, decide_eq_false_iff_not, UInt64.lt_iff_toNat_lt, hsum]
      omega
  rw [consumeGas, if_neg (by omega)]
  simp only [hpast, Bool.false_eq_true, if_false]

end room

end GasMeter

end Lib
