/-
  A running selection of the best candidate.

  A distinguished name `anon` marks "nothing selected yet": a selected candidate that bears this name is given up
  for any candidate of the same score.
-/
import Mathlib.Data.List.Induction
import Mathlib.Data.List.Sort

namespace Lib

open List

/-- The parameters of a selection: what is compared, and from where on a candidate counts. -/
structure Selection (α ν : Type) [Ord ν] where
  score : α → ℤ
  name : α → ν
  /-- the least score a candidate may have -/
  threshold : ℤ
  /-- the score the loop starts with -/
  floor : ℤ
  /-- the name the loop starts with -/
  anon : ν
  anon_least : ∀ a, name a ≠ anon → compare anon (name a) = .lt

structure Best (α ν : Type) where
  score : ℤ
  name : ν
  pick : Option α

namespace Selection

variable {α ν : Type} [Ord ν]

/-! ## Contenders -/

/-- A candidate of `l` with the highest score that counts. -/
structure Contender (S : Selection α ν) (l : List α) (c : α) : Prop where
  mem : c ∈ l
  threshold_le : S.threshold ≤ S.score c
  floor_le : S.floor ≤ S.score c
  highest : ∀ d ∈ l, S.threshold ≤ S.score d → S.score d ≤ S.score c

variable {S : Selection α ν} {l l' : List α} {c d : α}

theorem Contender.perm (h : S.Contender l c) (hp : l.Perm l') : S.Contender l' c :=
  ⟨hp.mem_iff.mp h.mem, h.threshold_le, h.floor_le, fun d hd => h.highest d (hp.mem_iff.mpr hd)⟩

theorem Contender.score_eq (hc : S.Contender l c) (hd : S.Contender l d) : S.score c = S.score d :=
  le_antisymm (hd.highest c hc.mem hc.threshold_le) (hc.highest d hd.mem hd.threshold_le)

theorem Contender.of_append (h : S.Contender (l ++ [c]) d) (hdc : d ≠ c) : S.Contender l d := by
  refine ⟨?_, h.threshold_le, h.floor_le, fun e he => h.highest e (by simp [he])⟩
  simpa [hdc] using h.mem

theorem Contender.append (h : S.Contender l d)
    (hc : S.threshold ≤ S.score c → S.score c ≤ S.score d) : S.Contender (l ++ [c]) d := by
  refine ⟨by simp [h.mem], h.threshold_le, h.floor_le, fun e he hth => ?_⟩
  rcases mem_append.mp he with he | he
  · exact h.highest e he hth
  · obtain rfl : e = c := by simpa using he
    exact hc hth

/-- A candidate that every counting one of `l` stays below, or equals, is a contender once added. -/
theorem Contender.last (hth : S.threshold ≤ S.score c) (hfl : S.floor ≤ S.score c)
    (h : ∀ d ∈ l, S.threshold ≤ S.score d → S.score d ≤ S.score c) :
    S.Contender (l ++ [c]) c := by
  refine ⟨by simp, hth, hfl, fun d hd hd' => ?_⟩
  rcases mem_append.mp hd with hd | hd
  · exact h d hd hd'
  · obtain rfl : d = c := by simpa using hd
    exact le_rfl

/-! ## The loop -/

variable [DecidableEq ν]

variable (S) in
def start : Best α ν := ⟨S.floor, S.anon, none⟩

variable (S) in
def consider (b : Best α ν) (c : α) : Best α ν :=
  if S.score c < S.threshold then b
  else if b.score < S.score c ∨
      S.score c = b.score ∧ (b.name = S.anon ∨ compare (S.name c) b.name = .lt) then
    ⟨S.score c, S.name c, some c⟩
  else b

variable (S) in
def select (l : List α) : Best α ν := l.foldl S.consider S.start

theorem select_append (l : List α) (c : α) : S.select (l ++ [c]) = S.consider (S.select l) c := by
  rw [select, foldl_concat, select]

variable (S) in
/-- The loop invariant: nothing counted so far, or the pick is a contender, and the least named one
unless some contender is `anon`. -/
def Selected (l : List α) (b : Best α ν) : Prop :=
  (b = S.start ∧ ∀ c ∈ l, S.threshold ≤ S.score c → S.score c < S.floor) ∨
  ∃ c, b = ⟨S.score c, S.name c, some c⟩ ∧ S.Contender l c ∧
    ((∀ d, S.Contender l d → S.name d ≠ S.anon) →
      ∀ d, S.Contender l d → compare (S.name d) (S.name c) ≠ .lt)

variable [Std.TransOrd ν]

theorem consider_start (c : α) (h : ∀ d ∈ l, S.threshold ≤ S.score d → S.score d < S.floor) :
    S.Selected (l ++ [c]) (S.consider S.start c) := by
  by_cases hc : S.threshold ≤ S.score c ∧ S.floor ≤ S.score c
  · obtain ⟨hth, hfl⟩ := hc
    have hbest : S.consider S.start c = ⟨S.score c, S.name c, some c⟩ := by
      rcases hfl.lt_or_eq with hlt | heq
      · simp [consider, start, hth.not_gt, hlt]
      · simp [consider, start, hth.not_gt, heq]
    have honly : ∀ d, S.Contender (l ++ [c]) d → d = c := by
      intro d hd
      by_contra hdc
      have := hd.of_append hdc
      exact absurd (h d this.mem this.threshold_le) this.floor_le.not_gt
    refine .inr ⟨c, hbest, .last hth hfl fun d hd hd' => ((h d hd hd').trans_le hfl).le, ?_⟩
    intro _ d hd
    simp [honly d hd]
  · have hbest : S.consider S.start c = S.start := by
      simp only [consider, start, ite_eq_left_iff, not_lt]
      intro hth
      rw [if_neg]
      rintro (hlt | ⟨heq, -⟩) <;> omega
    refine .inl ⟨hbest, fun d hd hth => ?_⟩
    rcases mem_append.mp hd with hd | hd
    · exact h d hd hth
    · obtain rfl : d = c := by simpa using hd
      by_contra hfl
      exact hc ⟨hth, by omega⟩

omit [DecidableEq ν] in
theorem selected_of_higher (hd : S.Contender l d) (hth : S.threshold ≤ S.score c)
    (hlt : S.score d < S.score c) : S.Selected (l ++ [c]) ⟨S.score c, S.name c, some c⟩ := by
  have hbelow : ∀ e ∈ l, S.threshold ≤ S.score e → S.score e < S.score c :=
    fun e he hthe => (hd.highest e he hthe).trans_lt hlt
  have honly : ∀ e, S.Contender (l ++ [c]) e → e = c := by
    intro e he
    by_contra hec
    have hel := he.of_append hec
    exact absurd (hbelow e hel.mem hel.threshold_le) (he.highest c (by simp) hth).not_gt
  refine .inr ⟨c, rfl, .last hth (hd.floor_le.trans hlt.le) fun e he hthe => (hbelow e he hthe).le, ?_⟩
  intro _ e he
  simp [honly e he]

theorem consider_pick (c : α) (hd : S.Contender l d) (hleast : (∀ e, S.Contender l e → S.name e ≠ S.anon) →
      ∀ e, S.Contender l e → compare (S.name e) (S.name d) ≠ .lt) :
    S.Selected (l ++ [c]) (S.consider ⟨S.score d, S.name d, some d⟩ c) := by
  by_cases hth : S.score c < S.threshold
  · -- `c` does not count, and the contenders stay the same
    rw [consider, if_pos hth]
    have happ : ∀ e, S.Contender l e → S.Contender (l ++ [c]) e :=
      fun e he => he.append fun h => absurd h hth.not_ge
    have hof : ∀ e, S.Contender (l ++ [c]) e → S.Contender l e := by
      intro e he
      refine he.of_append ?_
      rintro rfl
      exact absurd he.threshold_le hth.not_ge
    exact .inr ⟨d, rfl, happ d hd, fun hanon e he =>
      hleast (fun e he => hanon e (happ e he)) e (hof e he)⟩
  have hth' : S.threshold ≤ S.score c := by omega
  rcases lt_trichotomy (S.score d) (S.score c) with hlt | heq | hgt
  · rw [consider, if_neg hth, if_pos (.inl hlt)]
    exact selected_of_higher hd hth' hlt
  · have happ : ∀ e, S.Contender l e → S.Contender (l ++ [c]) e :=
      fun e he => he.append fun _ => by rw [← heq, hd.score_eq he]
    have hcon : S.Contender (l ++ [c]) c :=
      .last hth' (heq ▸ hd.floor_le) fun e he hthe => heq ▸ hd.highest e he hthe
    by_cases hrep : S.name d = S.anon ∨ compare (S.name c) (S.name d) = .lt
    · rw [consider, if_neg hth, if_pos (.inr ⟨heq.symm, hrep⟩)]
      refine .inr ⟨c, rfl, hcon, fun hanon e he hec => ?_⟩
      have hcd := hrep.resolve_left (hanon d (happ d hd))
      have hne : e ≠ c := by
        rintro rfl
        simp at hec
      exact hleast (fun e he => hanon e (happ e he)) e (he.of_append hne) (Std.TransCmp.lt_trans hec hcd)
    · rw [consider, if_neg hth, if_neg (by simp only [heq, lt_irrefl, true_and, false_or]; exact hrep)]
      refine .inr ⟨d, rfl, happ d hd, fun hanon e he => ?_⟩
      by_cases hec : e = c
      · subst hec
        exact fun h => hrep (.inr h)
      · exact hleast (fun e he => hanon e (happ e he)) e (he.of_append hec)
  · have happ : ∀ e, S.Contender l e → S.Contender (l ++ [c]) e :=
      fun e he => he.append fun _ => by rw [← hd.score_eq he]; exact hgt.le
    rw [consider, if_neg hth, if_neg (by simp only [hgt.not_gt, hgt.ne, false_and, or_self, not_false_eq_true])]
    refine .inr ⟨d, rfl, happ d hd, fun hanon e he => ?_⟩
    refine hleast (fun e he => hanon e (happ e he)) e (he.of_append ?_)
    rintro rfl
    exact absurd (he.highest d (by simp [hd.mem]) hd.threshold_le) hgt.not_ge

theorem selected_select (l : List α) : S.Selected l (S.select l) := by
  induction l using List.reverseRecOn with
  | nil => exact .inl ⟨rfl, by simp⟩
  | append_singleton l c ih =>
    rw [select_append]
    rcases ih with ⟨hb, hnone⟩ | ⟨d, hb, hd, hleast⟩
    · rw [hb]
      exact consider_start c hnone
    · rw [hb]
      exact consider_pick c hd hleast

/-! ## Reading the result -/

theorem pick_eq_none_iff : (S.select l).pick = none ↔ ∀ c ∈ l, S.threshold ≤ S.score c → S.score c < S.floor := by
  rcases selected_select (S := S) l with ⟨hb, hnone⟩ | ⟨d, hb, hd, -⟩
  · simpa [hb, start] using hnone
  · simp only [hb, reduceCtorEq, false_iff, not_forall, not_lt]
    exact ⟨d, hd.mem, hd.threshold_le, hd.floor_le⟩

theorem select_eq_start (h : (S.select l).pick = none) : S.select l = S.start := by
  rcases selected_select (S := S) l with ⟨hb, -⟩ | ⟨d, hb, -⟩
  · exact hb
  · simp [hb] at h

theorem select_eq_of_pick (h : (S.select l).pick = some c) : S.select l = ⟨S.score c, S.name c, some c⟩ := by
  rcases selected_select (S := S) l with ⟨hb, -⟩ | ⟨d, hb, -⟩
  · simp [hb, start] at h
  · obtain rfl : d = c := by simpa [hb] using h
    exact hb

theorem contender_of_pick (h : (S.select l).pick = some c) : S.Contender l c := by
  rcases selected_select (S := S) l with ⟨hb, -⟩ | ⟨d, hb, hd, -⟩
  · simp [hb, start] at h
  · obtain rfl : d = c := by simpa [hb] using h
    exact hd

theorem pick_isSome_of_contender (h : S.Contender l c) : ∃ d, (S.select l).pick = some d := by
  rcases hp : (S.select l).pick with _ | d
  · exact absurd (pick_eq_none_iff.mp hp c h.mem h.threshold_le) h.floor_le.not_gt
  · exact ⟨d, rfl⟩

theorem least_of_pick (hanon : ∀ d, S.Contender l d → S.name d ≠ S.anon)
    (h : (S.select l).pick = some c) (hd : S.Contender l d) :
    compare (S.name d) (S.name c) ≠ .lt := by
  rcases selected_select (S := S) l with ⟨hb, -⟩ | ⟨e, hb, -, hleast⟩
  · simp [hb, start] at h
  · obtain rfl : e = c := by simpa [hb] using h
    exact hleast hanon d hd

/-! ## The order of the candidates -/

theorem exists_perm_last (h : c ∈ l) : ∃ l', (l' ++ [c]).Perm l := by
  obtain ⟨l₁, l₂, rfl⟩ := append_of_mem h
  refine ⟨l₁ ++ l₂, ?_⟩
  rw [append_assoc]
  exact (perm_append_comm).append_left l₁

theorem pick_anon_last (h : S.Contender (l ++ [c]) c) (hc : S.name c = S.anon) :
    (S.select (l ++ [c])).pick = some c := by
  rw [select_append, consider, if_neg h.threshold_le.not_gt]
  rcases hp : (S.select l).pick with _ | d
  · rw [select_eq_start hp, if_pos]
    rcases h.floor_le.lt_or_eq with hlt | heq
    · exact .inl hlt
    · exact .inr ⟨heq.symm, .inl rfl⟩
  · have hd := contender_of_pick hp
    rw [select_eq_of_pick hp, if_pos]
    rcases (h.highest d (by simp [hd.mem]) hd.threshold_le).lt_or_eq with hlt | heq
    · exact .inl hlt
    · refine .inr ⟨heq.symm, ?_⟩
      by_cases hanon : S.name d = S.anon
      · exact .inl hanon
      · exact .inr (hc ▸ S.anon_least d hanon)

theorem pick_name_ne_anon (h : S.Contender (l ++ [c]) c) (hc : S.name c ≠ S.anon)
    (hp : (S.select (l ++ [c])).pick = some d) : S.name d ≠ S.anon := by
  rw [select_append, consider, if_neg h.threshold_le.not_gt] at hp
  split_ifs at hp with hrep
  · obtain rfl : c = d := by simpa using hp
    exact hc
  · intro hanon
    have hd := contender_of_pick hp
    have hle := h.highest d (by simp [hd.mem]) hd.threshold_le
    rw [select_eq_of_pick hp] at hrep
    rcases hle.lt_or_eq with hlt | heq
    · exact hrep (.inl hlt)
    · exact hrep (.inr ⟨heq.symm, .inl hanon⟩)

omit [DecidableEq ν] in
theorem name_inj [Std.LawfulEqOrd ν] (hinj : ∀ c ∈ l, ∀ d ∈ l, S.name c = S.name d → c = d)
    (hc : c ∈ l) (hd : d ∈ l) (hcd : compare (S.name c) (S.name d) ≠ .lt)
    (hdc : compare (S.name d) (S.name c) ≠ .lt) : c = d := by
  refine hinj c hc d hd (Std.LawfulEqOrd.eq_of_compare ?_)
  have hswap : compare (S.name d) (S.name c) = (compare (S.name c) (S.name d)).swap :=
    Std.OrientedOrd.eq_swap
  cases hcmp : compare (S.name c) (S.name d) <;> simp_all

theorem pick_after_anon (hc : S.Contender (l ++ [c]) c) (hanon : S.name c = S.anon)
    (hd : S.Contender (l ++ [c] ++ [d]) d) : (S.select (l ++ [c] ++ [d])).pick = some d := by
  have hle := hd.highest c (by simp) hc.threshold_le
  rw [select_append, select_eq_of_pick (pick_anon_last hc hanon), consider, if_neg hd.threshold_le.not_gt, if_pos]
  rcases hle.lt_or_eq with hlt | heq
  · exact .inl hlt
  · exact .inr ⟨heq.symm, .inl hanon⟩

/-- **Which candidates can be picked**: every contender if an `anon` one is among them, else only the least named. -/
theorem exists_perm_pick_iff [Std.LawfulEqOrd ν] (hinj : ∀ c ∈ l, ∀ d ∈ l, S.name c = S.name d → c = d) :
    (∃ l', l'.Perm l ∧ (S.select l').pick = some c) ↔
      S.Contender l c ∧ ((∃ d, S.Contender l d ∧ S.name d = S.anon) ∨
        ∀ d, S.Contender l d → compare (S.name d) (S.name c) ≠ .lt) := by
  constructor
  · rintro ⟨l', hl', hp⟩
    refine ⟨(contender_of_pick hp).perm hl', ?_⟩
    by_cases hex : ∃ d, S.Contender l d ∧ S.name d = S.anon
    · exact .inl hex
    · refine .inr fun d hd => least_of_pick (fun e he h => hex ⟨e, he.perm hl', h⟩) hp (hd.perm hl'.symm)
  · rintro ⟨hc, hor⟩
    by_cases hex : ∃ d, S.Contender l d ∧ S.name d = S.anon
    · obtain ⟨d, hd, hanon⟩ := hex
      by_cases hcd : c = d
      · obtain ⟨l', hl'⟩ := exists_perm_last hc.mem
        exact ⟨_, hl', pick_anon_last (hc.perm hl'.symm) (hcd ▸ hanon)⟩
      · -- `d` last but one, `c` last
        obtain ⟨l₁, hl₁⟩ := exists_perm_last hc.mem
        have hd₁ : d ∈ l₁ := by
          have := hl₁.mem_iff.mpr hd.mem
          simpa [Ne.symm hcd] using this
        obtain ⟨l₂, hl₂⟩ := exists_perm_last hd₁
        have hl : (l₂ ++ [d] ++ [c]).Perm l := (hl₂.append_right [c]).trans hl₁
        have hd₂ : S.Contender (l₂ ++ [d]) d :=
          (hd.perm hl.symm).of_append fun h => hcd h.symm
        exact ⟨_, hl, pick_after_anon hd₂ hanon (hc.perm hl.symm)⟩
    · obtain ⟨d, hp⟩ := pick_isSome_of_contender hc
      have hd := contender_of_pick hp
      have hcd := least_of_pick (fun e he h => hex ⟨e, he, h⟩) hp hc
      refine ⟨l, .refl l, ?_⟩
      rw [hp, name_inj hinj hd.mem hc.mem (hor.resolve_left hex d hd) hcd]

/-- **When the order of the candidates does not matter.** -/
theorem select_order_free_iff [Std.LawfulEqOrd ν] (hinj : ∀ c ∈ l, ∀ d ∈ l, S.name c = S.name d → c = d) :
    (∀ l', l'.Perm l → (S.select l').pick = (S.select l).pick) ↔
      ∀ c d, S.Contender l c → S.name c = S.anon → S.Contender l d → d = c := by
  constructor
  · intro hfree c d hc hanon hd
    by_contra hdc
    have hname : S.name d ≠ S.anon := fun h => hdc (hinj d hd.mem c hc.mem (h.trans hanon.symm))
    obtain ⟨l₁, hl₁⟩ := exists_perm_last hc.mem
    obtain ⟨l₂, hl₂⟩ := exists_perm_last hd.mem
    have hpick₁ := pick_anon_last (hc.perm hl₁.symm) hanon
    have hpick₂ : (S.select (l₂ ++ [d])).pick = some c := by
      rw [hfree _ hl₂, ← hfree _ hl₁, hpick₁]
    exact pick_name_ne_anon (hd.perm hl₂.symm) hname hpick₂ hanon
  · intro halone l' hl'
    rcases hp : (S.select l).pick with _ | c
    · rw [pick_eq_none_iff] at hp ⊢
      exact fun d hd => hp d (hl'.mem_iff.mp hd)
    have hc := contender_of_pick hp
    obtain ⟨d, hp'⟩ := pick_isSome_of_contender (hc.perm hl'.symm)
    have hd : S.Contender l d := (contender_of_pick hp').perm hl'
    rw [hp']
    congr 1
    by_cases hex : ∃ e, S.Contender l e ∧ S.name e = S.anon
    · obtain ⟨e, he, hanon⟩ := hex
      rw [halone e d he hanon hd, halone e c he hanon hc]
    · -- without an `anon` contender both picks have the least name
      have hno : ∀ e, S.Contender l e → S.name e ≠ S.anon := fun e he h => hex ⟨e, he, h⟩
      have hcd := least_of_pick hno hp hd
      have hdc := least_of_pick (fun e he => hno e (he.perm hl')) hp' (hc.perm hl'.symm)
      exact name_inj hinj hd.mem hc.mem hcd hdc

end Selection

end Lib
