/-
  What the selection loop picks.
-/
import TerpCore.Hashmerchant.Tally
import TerpCore.Lib.Select

namespace Hashmerchant

open Lib

/-! ## The loop as a selection -/

def rootSelection (threshold : Int64) : Selection (Bytes × List RootVote) Bytes where
  score e := (votesPower e.2).toInt
  name e := e.1
  threshold := threshold.toInt
  floor := (-1 : Int64).toInt
  anon := []
  anon_least e he := by
    obtain ⟨_ | ⟨b, bs⟩, vs⟩ := e
    · exact absurd rfl he
    · rfl

/-- The winner that a pick of the selection stands for. -/
def Winner.ofPick (key : TallyKey) : Option (Bytes × List RootVote) → Winner
  | none => zeroWinner
  | some e => ⟨key, e.2, votesPower e.2⟩

structure Agrees (key : TallyKey) (best : Winner × Bytes) (b : Best (Bytes × List RootVote) Bytes) :
    Prop where
  power : b.score = best.1.power.toInt
  rootHex : b.name = best.2
  winner : best.1 = Winner.ofPick key b.pick

theorem Agrees.consider {threshold : Int64} {key : TallyKey} {best : Winner × Bytes}
    {b : Best (Bytes × List RootVote) Bytes} (h : Agrees key best b) (e : Bytes × List RootVote) :
    Agrees key (considerRoot threshold key best e) ((rootSelection threshold).consider b e) := by
  let S := rootSelection threshold
  have hth : votesPower e.2 < threshold ↔ S.score e < S.threshold := Int64.lt_iff_toInt_lt
  have hreplace : (best.1.power < votesPower e.2 ∨
        votesPower e.2 = best.1.power ∧ (best.2 = [] ∨ Bytes.lt e.1 best.2)) ↔
      (b.score < S.score e ∨
        S.score e = b.score ∧ (b.name = S.anon ∨ compare (S.name e) b.name = .lt)) := by
    rw [h.power, h.rootHex, Int64.lt_iff_toInt_lt, ← Int64.toInt_inj]
    simp [Bytes.lt, S, rootSelection]
  by_cases hskip : votesPower e.2 < threshold
  · rw [considerRoot, if_pos hskip, Selection.consider, if_pos (hth.mp hskip)]
    exact h
  by_cases hrep : best.1.power < votesPower e.2 ∨ votesPower e.2 = best.1.power ∧ (best.2 = [] ∨ Bytes.lt e.1 best.2)
  · rw [considerRoot, if_neg hskip, if_pos hrep, Selection.consider, if_neg (mt hth.mpr hskip),
      if_pos (hreplace.mp hrep)]
    exact ⟨rfl, rfl, rfl⟩
  · rw [considerRoot, if_neg hskip, if_neg hrep, Selection.consider, if_neg (mt hth.mpr hskip),
      if_neg (mt hreplace.mpr hrep)]
    exact h

section

variable (threshold : Int64) (key : TallyKey) (entries : List (Bytes × List RootVote))

theorem agrees_foldl : Agrees key (entries.foldl (considerRoot threshold key) (zeroWinner, []))
      ((rootSelection threshold).select entries) := by
  induction entries using List.reverseRecOn with
  | nil => exact ⟨rfl, rfl, rfl⟩
  | append_singleton entries e ih =>
    rw [List.foldl_concat, Selection.select_append]
    exact ih.consider e

/-- **The selection loop refines the general selection.** -/
theorem bestRoot_eq :
    bestRoot threshold key entries = Winner.ofPick key ((rootSelection threshold).select entries).pick :=
  (agrees_foldl threshold key entries).winner

end

/-! ## Leading roots -/

variable {β : Type} (k : Keeper β)

/-- `root` has votes for `key` that meet the threshold, and no root of `key` has more power. -/
structure Keeper.Leads (votes : List ExtendedVoteInfo) (threshold : Int64) (key : TallyKey)
    (root : Bytes) : Prop where
  voted : k.votesFor votes key root ≠ []
  threshold_le : threshold ≤ k.power votes key root
  floor_le : -1 ≤ k.power votes key root
  highest : ∀ root', k.votesFor votes key root' ≠ [] → threshold ≤ k.power votes key root' →
    k.power votes key root' ≤ k.power votes key root

/-- Some order of the loops selects `root` for `key`: it leads, and has the least hex form of the leading roots unless
the empty one is among them. -/
def Keeper.CanWin (votes : List ExtendedVoteInfo) (threshold : Int64) (key : TallyKey) (root : Bytes) : Prop :=
  k.Leads votes threshold key root ∧
    (k.Leads votes threshold key [] ∨
      ∀ root', k.Leads votes threshold key root' → ¬ Bytes.lt (hex root') (hex root))

/-- `key` has votes, but no root of it is selected, and the threshold lets the initial winner pass. -/
structure Keeper.Unmet (votes : List ExtendedVoteInfo) (threshold : Int64) (key : TallyKey) :
    Prop where
  voted : ∃ root, k.votesFor votes key root ≠ []
  threshold_le : threshold ≤ -1
  below : ∀ root, k.votesFor votes key root ≠ [] → threshold ≤ k.power votes key root →
    k.power votes key root < -1

theorem Keeper.Leads.power_eq {k : Keeper β} {votes : List ExtendedVoteInfo} {threshold : Int64}
    {key : TallyKey} {root root' : Bytes} (h : k.Leads votes threshold key root)
    (h' : k.Leads votes threshold key root') : k.power votes key root = k.power votes key root' :=
  Int64.le_antisymm (h'.highest root h.voted h.threshold_le) (h.highest root' h'.voted h'.threshold_le)

def Keeper.winnerOf (votes : List ExtendedVoteInfo) (key : TallyKey) (root : Bytes) : Winner :=
  ⟨key, k.votesFor votes key root, k.power votes key root⟩

variable {k}
variable {votes : List ExtendedVoteInfo} {threshold : Int64} {key : TallyKey} {root : Bytes}
variable {roots : RootMap} {entries : List (Bytes × List RootVote)}

def Keeper.entryOf (k : Keeper β) (votes : List ExtendedVoteInfo) (key : TallyKey) (root : Bytes) :
    Bytes × List RootVote :=
  (hex root, k.votesFor votes key root)

section rootSelection

variable {root' : Bytes}

theorem score_entryOf : (rootSelection threshold).score (k.entryOf votes key root) =
    (k.power votes key root).toInt := rfl

theorem threshold_le_score :
    (rootSelection threshold).threshold ≤ (rootSelection threshold).score (k.entryOf votes key root) ↔
      threshold ≤ k.power votes key root := by
  rw [Int64.le_iff_toInt_le]
  rfl

theorem floor_le_score :
    (rootSelection threshold).floor ≤ (rootSelection threshold).score (k.entryOf votes key root) ↔
      -1 ≤ k.power votes key root := by
  rw [Int64.le_iff_toInt_le]
  rfl

theorem score_le_score : (rootSelection threshold).score (k.entryOf votes key root) ≤
        (rootSelection threshold).score (k.entryOf votes key root') ↔
      k.power votes key root ≤ k.power votes key root' := by
  rw [score_entryOf, score_entryOf, Int64.le_iff_toInt_le]

end rootSelection

theorem contender_iff_leads (hroots : (k.tally votes).lookup key = some roots) (hperm : entries.Perm roots.items) :
    (rootSelection threshold).Contender entries (k.entryOf votes key root) ↔ k.Leads votes threshold key root := by
  have hmem : ∀ e, e ∈ entries ↔ ∃ root, e = k.entryOf votes key root ∧ k.votesFor votes key root ≠ [] := by
    intro e
    rw [hperm.mem_iff, tally_entry_iff hroots]
    rfl
  constructor
  · intro h
    obtain ⟨root', he, hvoted⟩ := (hmem _).mp h.mem
    obtain rfl : root = root' := hex_injective (Prod.mk.inj he).1
    refine ⟨hvoted, threshold_le_score.mp h.threshold_le, floor_le_score.mp h.floor_le, ?_⟩
    intro root' hvoted' hth
    exact score_le_score.mp (h.highest (k.entryOf votes key root')
      ((hmem _).mpr ⟨root', rfl, hvoted'⟩) (threshold_le_score.mpr hth))
  · intro h
    refine ⟨(hmem _).mpr ⟨root, rfl, h.voted⟩, threshold_le_score.mpr h.threshold_le, floor_le_score.mpr h.floor_le, ?_⟩
    intro e he hth
    obtain ⟨root', rfl, hvoted'⟩ := (hmem e).mp he
    exact score_le_score.mpr (h.highest root' hvoted' (threshold_le_score.mp hth))

variable (threshold) in
theorem bestRoot_cases (hroots : (k.tally votes).lookup key = some roots) (hperm : entries.Perm roots.items) :
    (∃ root, k.Leads votes threshold key root ∧
        ((rootSelection threshold).select entries).pick = some (k.entryOf votes key root) ∧
        bestRoot threshold key entries = k.winnerOf votes key root) ∨
      ((∀ root, ¬ k.Leads votes threshold key root) ∧
        (∀ root, k.votesFor votes key root ≠ [] → threshold ≤ k.power votes key root →
          k.power votes key root < -1) ∧
        bestRoot threshold key entries = zeroWinner) := by
  rw [bestRoot_eq]
  cases hpick : ((rootSelection threshold).select entries).pick with
  | some e =>
    have hcon := Selection.contender_of_pick hpick
    obtain ⟨root, rfl, -⟩ := (tally_entry_iff hroots).mp (hperm.mem_iff.mp hcon.mem)
    exact .inl ⟨root, (contender_iff_leads hroots hperm).mp hcon, rfl, rfl⟩
  | none =>
    have hnone := Selection.pick_eq_none_iff.mp hpick
    have hbelow : ∀ root, k.votesFor votes key root ≠ [] → threshold ≤ k.power votes key root →
        k.power votes key root < -1 := by
      intro root hvoted hth
      have hmem : k.entryOf votes key root ∈ entries :=
        hperm.mem_iff.mpr ((tally_entry_iff hroots).mpr ⟨root, rfl, hvoted⟩)
      have hlow := hnone _ hmem (threshold_le_score.mpr hth)
      rw [← not_le, floor_le_score] at hlow
      exact Int64.not_le.mp hlow
    refine .inr ⟨fun root hlead => ?_, hbelow, rfl⟩
    have := hbelow root hlead.voted hlead.threshold_le
    exact Int64.not_lt.mpr hlead.floor_le this

/-! ## The winners of a commit -/

variable {o : TallyOrder} {w : Winner}

theorem entryWinner_cases (hroots : (k.tally votes).lookup key = some roots)
    (hw : entryWinner o threshold (key, roots) = some w) :
    (∃ root, k.Leads votes threshold key root ∧ w = k.winnerOf votes key root) ∨
      (w = zeroWinner ∧ k.Unmet votes threshold key) := by
  simp only [entryWinner, Option.ite_none_right_eq_some, Option.some.injEq] at hw
  obtain ⟨hth, rfl⟩ := hw
  rcases bestRoot_cases threshold hroots ((o.inner key).perm roots) with
    ⟨root, hlead, -, hbest⟩ | ⟨-, hbelow, hbest⟩
  · exact .inl ⟨root, hlead, hbest⟩
  · rw [hbest] at hth
    exact .inr ⟨hbest, tally_lookup_isSome_iff.mp ⟨roots, hroots⟩, hth, hbelow⟩

theorem mem_collectWinners :
    w ∈ collectWinners o threshold (k.tally votes) ↔ ∃ key roots, (k.tally votes).lookup key = some roots ∧
        entryWinner o threshold (key, roots) = some w := by
  simp only [collectWinners, List.mem_filterMap, Prod.exists, o.outer.mem_items]

/-- **Every winner** has the votes of a leading root, or is the initial winner of an unmet key. -/
theorem winner_cases (hw : w ∈ collectWinners o threshold (k.tally votes)) :
    (∃ key root, k.Leads votes threshold key root ∧ w = k.winnerOf votes key root) ∨
      (w = zeroWinner ∧ ∃ key, k.Unmet votes threshold key) := by
  obtain ⟨key, roots, hroots, hw⟩ := mem_collectWinners.mp hw
  rcases entryWinner_cases hroots hw with ⟨root, hlead, rfl⟩ | ⟨rfl, hunmet⟩
  · exact .inl ⟨key, root, hlead, rfl⟩
  · exact .inr ⟨rfl, key, hunmet⟩

theorem entryWinner_of_leads (o : TallyOrder) (hroots : (k.tally votes).lookup key = some roots)
    (h : k.Leads votes threshold key root) :
    ∃ root', k.Leads votes threshold key root' ∧
      entryWinner o threshold (key, roots) = some (k.winnerOf votes key root') := by
  rcases bestRoot_cases threshold hroots ((o.inner key).perm roots) with
    ⟨root', hlead, -, hbest⟩ | ⟨hno, -⟩
  · refine ⟨root', hlead, ?_⟩
    rw [entryWinner, hbest]
    exact if_pos hlead.threshold_le
  · exact absurd h (hno root)

theorem entryWinner_of_unmet (o : TallyOrder) (hroots : (k.tally votes).lookup key = some roots)
    (h : k.Unmet votes threshold key) :
    entryWinner o threshold (key, roots) = some zeroWinner := by
  rcases bestRoot_cases threshold hroots ((o.inner key).perm roots) with
    ⟨root, hlead, -, -⟩ | ⟨-, -, hbest⟩
  · exact absurd (h.below root hlead.voted hlead.threshold_le) (Int64.not_lt.mpr hlead.floor_le)
  · rw [entryWinner, hbest]
    exact if_pos h.threshold_le

theorem zeroWinner_mem_iff :
    zeroWinner ∈ collectWinners o threshold (k.tally votes) ↔ ∃ key, k.Unmet votes threshold key := by
  constructor
  · intro hmem
    rcases winner_cases hmem with ⟨key, root, hlead, heq⟩ | ⟨-, hunmet⟩
    · exact absurd (congrArg Winner.votes heq).symm hlead.voted
    · exact hunmet
  · rintro ⟨key, hunmet⟩
    obtain ⟨roots, hroots⟩ := tally_lookup_isSome_iff.mpr hunmet.voted
    exact mem_collectWinners.mpr ⟨key, roots, hroots, entryWinner_of_unmet o hroots hunmet⟩

/-- An order of the loop over the roots of `key`, and any order elsewhere. -/
noncomputable def TallyOrder.visiting (key : TallyKey) (roots : RootMap)
    (l : List (Bytes × List RootVote)) (h : l.Perm roots.items) : TallyOrder where
  outer := .kept
  inner := fun key' => if key' = key then .visiting roots l h else .kept

theorem mem_collectWinners_visiting {l : List (Bytes × List RootVote)}
    (hroots : (k.tally votes).lookup key = some roots) (h : l.Perm roots.items)
    (hth : threshold ≤ (bestRoot threshold key l).power) :
    bestRoot threshold key l ∈ collectWinners (.visiting key roots l h) threshold (k.tally votes) := by
  refine mem_collectWinners.mpr ⟨key, roots, hroots, ?_⟩
  simp [entryWinner, TallyOrder.visiting, hth]

theorem root_eq_of_votesFor_eq {root' : Bytes} (hne : k.votesFor votes key root ≠ [])
    (h : k.votesFor votes key root = k.votesFor votes key root') : root = root' := by
  obtain ⟨v, hv⟩ := List.exists_mem_of_ne_nil _ hne
  rw [← root_of_mem_votesFor hv, root_of_mem_votesFor (h ▸ hv)]

theorem entryWinner_of_mem (hvotes : w.votes ≠ []) (hw : w ∈ collectWinners o threshold (k.tally votes)) :
    ∃ roots, (k.tally votes).lookup w.key = some roots ∧ entryWinner o threshold (w.key, roots) = some w := by
  obtain ⟨key, roots, hroots, hentry⟩ := mem_collectWinners.mp hw
  rcases entryWinner_cases hroots hentry with ⟨root, -, rfl⟩ | ⟨rfl, -⟩
  · exact ⟨roots, hroots, hentry⟩
  · exact absurd rfl hvotes

theorem winner_eq_of_votes_ne {a b : Winner} (ha : a ∈ collectWinners o threshold (k.tally votes))
    (hva : a.votes ≠ []) (hb : b ∈ collectWinners o threshold (k.tally votes)) (hvb : b.votes ≠ [])
    (hkey : a.key = b.key) : a = b := by
  obtain ⟨roots, hroots, hea⟩ := entryWinner_of_mem hva ha
  obtain ⟨roots', hroots', heb⟩ := entryWinner_of_mem hvb hb
  rw [hkey] at hroots hea
  obtain rfl : roots = roots' := Option.some.inj (hroots.symm.trans hroots')
  exact Option.some.inj (hea.symm.trans heb)

theorem entry_eq_of_name (roots : RootMap) : ∀ c ∈ roots.items, ∀ d ∈ roots.items,
    (rootSelection threshold).name c = (rootSelection threshold).name d → c = d := by
  rintro ⟨h, vs⟩ hc ⟨h', vs'⟩ hd (rfl : h = h')
  rw [GoMap.mem_items] at hc hd
  rw [Option.some.inj (hc.symm.trans hd)]

theorem exists_pick_iff_canWin (hroots : (k.tally votes).lookup key = some roots) : (∃ l, l.Perm roots.items ∧
        ((rootSelection threshold).select l).pick = some (k.entryOf votes key root)) ↔
      k.CanWin votes threshold key root := by
  have hlead : ∀ r, (rootSelection threshold).Contender roots.items (k.entryOf votes key r) ↔
      k.Leads votes threshold key r := fun r => contender_iff_leads hroots (.refl _)
  rw [Selection.exists_perm_pick_iff (entry_eq_of_name roots), hlead]
  refine and_congr_right fun _ => or_congr ?_ ?_
  · constructor
    · rintro ⟨e, he, hanon⟩
      obtain ⟨r, rfl, -⟩ := (tally_entry_iff hroots).mp he.mem
      obtain rfl : r = [] := hex_eq_nil.mp hanon
      exact (hlead []).mp he
    · intro h
      exact ⟨_, (hlead []).mpr h, rfl⟩
  · constructor
    · intro h r hr hlt
      exact h _ ((hlead r).mpr hr) (Ordering.isLT_iff_eq_lt.mp hlt)
    · intro h e he hlt
      obtain ⟨r, rfl, -⟩ := (tally_entry_iff hroots).mp he.mem
      exact h r ((hlead r).mp he) (Ordering.isLT_iff_eq_lt.mpr hlt)

/-- **The possible winners**: for some order of the loops, exactly the roots that can win. -/
theorem exists_order_iff_canWin :
    (∃ o : TallyOrder, k.winnerOf votes key root ∈ collectWinners o threshold (k.tally votes)) ∧
        k.votesFor votes key root ≠ [] ↔
      k.CanWin votes threshold key root := by
  constructor
  · rintro ⟨⟨o, hmem⟩, hvoted⟩
    obtain ⟨roots, hroots, hw⟩ := entryWinner_of_mem hvoted hmem
    simp only [entryWinner, Option.ite_none_right_eq_some, Option.some.injEq] at hw
    rcases bestRoot_cases threshold hroots ((o.inner key).perm roots) with
      ⟨r, hlead, hpick, hbest⟩ | ⟨-, -, hbest⟩
    · obtain rfl := root_eq_of_votesFor_eq hlead.voted (congrArg Winner.votes (hbest.symm.trans hw.2))
      exact (exists_pick_iff_canWin hroots).mp ⟨_, (o.inner key).perm roots, hpick⟩
    · exact absurd (congrArg Winner.votes (hw.2.symm.trans hbest)) hvoted
  · intro h
    obtain ⟨roots, hroots⟩ := tally_lookup_isSome_iff.mpr ⟨root, h.1.voted⟩
    obtain ⟨l, hl, hpick⟩ := (exists_pick_iff_canWin hroots).mpr h
    have hbest : bestRoot threshold key l = k.winnerOf votes key root := by
      rw [bestRoot_eq, hpick]
      rfl
    refine ⟨⟨.visiting key roots l hl, ?_⟩, h.1.voted⟩
    rw [← hbest]
    refine mem_collectWinners_visiting hroots hl ?_
    rw [hbest]
    exact h.1.threshold_le

theorem exists_canWin_of_leads (h : k.Leads votes threshold key root) :
    ∃ root', k.CanWin votes threshold key root' := by
  obtain ⟨roots, hroots⟩ := tally_lookup_isSome_iff.mpr ⟨root, h.voted⟩
  obtain ⟨root', hlead, hentry⟩ := entryWinner_of_leads ⟨.kept, fun _ => .kept⟩ hroots h
  have hmem := mem_collectWinners.mpr ⟨key, roots, hroots, hentry⟩
  exact ⟨root', exists_order_iff_canWin.mp ⟨⟨_, hmem⟩, hlead.voted⟩⟩

end Hashmerchant
