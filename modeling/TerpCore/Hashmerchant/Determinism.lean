/-
  When the order of the map iterations does not matter.

  Two corners are left: the empty root, and a key without a selectable root.
-/
import TerpCore.Hashmerchant.Writes

namespace Hashmerchant

open Lib

variable {β : Type}

def Keeper.withSort (k : Keeper β) (srt : SliceSort) : Keeper β := { k with sliceSort := srt }

section withSort

variable (k : Keeper β) (srt : SliceSort) (votes : List ExtendedVoteInfo)

@[simp] theorem withSort_self : k.withSort k.sliceSort = k := rfl

@[simp] theorem withSort_tallyVote : (k.withSort srt).tallyVote = k.tallyVote := rfl

@[simp] theorem withSort_tally : (k.withSort srt).tally votes = k.tally votes := by
  simp [Keeper.tally, Keeper.tallyVotes]

@[simp] theorem withSort_totalPower : (k.withSort srt).totalPower votes = k.totalPower votes := by
  simp [Keeper.totalPower, Keeper.tallyVotes]

end withSort

/-- The sequence of winners of a commit; `none` if the threshold panics. -/
def Keeper.winners (k : Keeper β) (params : Params) (o : TallyOrder) (commit : ExtendedCommitInfo) :
    Option (List Winner) :=
  (params.quorumThreshold (k.totalPower commit.votes)).map fun threshold =>
    k.selectWinners o threshold (k.tally commit.votes)

/-- Whatever the sort is, two map orders give the same winners, and so the same writes and calls in every state with
these parameters. -/
structure OrderFree (k : Keeper β) (params : Params) (commit : ExtendedCommitInfo) : Prop where
  winners : ∀ srt o o',
    (k.withSort srt).winners params o commit = (k.withSort srt).winners params o' commit
  effects : ∀ srt o o' blockHeight s, getParams s.store = .ok params →
    (k.withSort srt).processVoteExtensions o blockHeight s commit =
      (k.withSort srt).processVoteExtensions o' blockHeight s commit

/-- The empty root and another root of the same key both have the highest power. -/
def Keeper.EmptyRootTie (k : Keeper β) (votes : List ExtendedVoteInfo) (threshold : Int64) : Prop :=
  ∃ key root, root ≠ [] ∧ k.Leads votes threshold key [] ∧ k.Leads votes threshold key root

/-- A key yields the initial winner, and the key of two empty strings has a winner of its own. -/
def Keeper.ZeroWinnerClash (k : Keeper β) (votes : List ExtendedVoteInfo) (threshold : Int64) : Prop :=
  (∃ key, k.Unmet votes threshold key) ∧ ∃ root, k.Leads votes threshold ⟨[], []⟩ root

/-! ## Sorting the winners -/

def winnerCmp : Winner → Winner → Ordering :=
  compareLex (compareOn fun w => w.key.chainUID) (compareOn fun w => w.key.algo)

theorem winnerLess_eq : winnerLess = fun a b => (winnerCmp a b).isLT := by
  funext a b
  rw [winnerCmp, isLT_compareLex]
  simp only [winnerLess, compareOn, ne_eq, Std.LawfulEqOrd.compare_eq_iff_eq, Bytes.lt]

theorem key_eq_of_winnerCmp {a b : Winner} (h : winnerCmp a b = .eq) : a.key = b.key := by
  obtain ⟨⟨c, l⟩, vs, p⟩ := a
  simp only [winnerCmp, compareLex_eq_eq, compareOn, Std.LawfulEqOrd.compare_eq_iff_eq] at h
  simp [h]

variable {k : Keeper β} {params : Params} {commit : ExtendedCommitInfo}
variable {votes : List ExtendedVoteInfo} {threshold : Int64} {key : TallyKey} {root : Bytes}

theorem winner_eq_of_key {o : TallyOrder} (hclash : ¬ k.ZeroWinnerClash votes threshold)
    {a b : Winner} (ha : a ∈ collectWinners o threshold (k.tally votes))
    (hb : b ∈ collectWinners o threshold (k.tally votes)) (hkey : a.key = b.key) : a = b := by
  rcases winner_cases ha with ⟨key₁, root₁, hlead₁, rfl⟩ | ⟨rfl, hunmet₁⟩
  · rcases winner_cases hb with ⟨key₂, root₂, hlead₂, rfl⟩ | ⟨rfl, hunmet₂⟩
    · exact winner_eq_of_votes_ne ha hlead₁.voted hb hlead₂.voted hkey
    · obtain rfl : key₁ = ⟨[], []⟩ := hkey
      exact absurd ⟨hunmet₂, root₁, hlead₁⟩ hclash
  · rcases winner_cases hb with ⟨key₂, root₂, hlead₂, rfl⟩ | ⟨rfl, hunmet₂⟩
    · obtain rfl : (⟨[], []⟩ : TallyKey) = key₂ := hkey
      exact absurd ⟨hunmet₁, root₂, hlead₂⟩ hclash
    · rfl

theorem entryWinner_order_free {roots : RootMap} (htie : ¬ k.EmptyRootTie votes threshold)
    (hroots : (k.tally votes).lookup key = some roots) (o o' : TallyOrder) :
    entryWinner o threshold (key, roots) = entryWinner o' threshold (key, roots) := by
  have hfree := (Selection.select_order_free_iff (entry_eq_of_name roots)).mpr fun c d hc hanon hd => by
    obtain ⟨root, rfl, -⟩ := (tally_entry_iff hroots).mp hc.mem
    obtain ⟨root', rfl, -⟩ := (tally_entry_iff hroots).mp hd.mem
    obtain rfl : root = [] := hex_eq_nil.mp hanon
    by_contra hne
    refine htie ⟨key, root', ?_, (contender_iff_leads hroots (.refl _)).mp hc,
      (contender_iff_leads hroots (.refl _)).mp hd⟩
    rintro rfl
    exact hne rfl
  have hbest : ∀ o : TallyOrder, bestRoot threshold key ((o.inner key).items roots) =
      bestRoot threshold key roots.items := by
    intro o
    rw [bestRoot_eq, bestRoot_eq, hfree _ ((o.inner key).perm roots)]
  simp only [entryWinner, hbest]

theorem collectWinners_perm (htie : ¬ k.EmptyRootTie votes threshold) (o o' : TallyOrder) :
    (collectWinners o threshold (k.tally votes)).Perm (collectWinners o' threshold (k.tally votes)) := by
  have hsame : collectWinners o threshold (k.tally votes) =
      (o.outer.items (k.tally votes)).filterMap (entryWinner o' threshold) := by
    refine List.filterMap_congr ?_
    rintro ⟨key, roots⟩ hmem
    exact entryWinner_order_free htie (o.outer.mem_items.mp hmem) o o'
  rw [hsame]
  exact ((o.outer.perm _).trans (o'.outer.perm _).symm).filterMap _

/-- **The winners do not depend on the order** when there is neither a tie nor a clash. -/
theorem selectWinners_order_free (srt : SliceSort) (htie : ¬ k.EmptyRootTie votes threshold)
    (hclash : ¬ k.ZeroWinnerClash votes threshold) (o o' : TallyOrder) :
    (k.withSort srt).selectWinners o threshold (k.tally votes) =
      (k.withSort srt).selectWinners o' threshold (k.tally votes) := by
  have : Std.TransCmp winnerCmp := inferInstanceAs (Std.TransCmp (compareLex _ _))
  have hperm := srt.perm winnerLess (collectWinners o threshold (k.tally votes))
  have hperm' := srt.perm winnerLess (collectWinners o' threshold (k.tally votes))
  change srt.sort winnerLess _ = srt.sort winnerLess _
  refine eq_of_perm_of_sorted winnerCmp (hperm.trans ((collectWinners_perm htie o o').trans hperm'.symm)) ?_ ?_ ?_
  · rw [winnerLess_eq]
    exact srt.sorted winnerCmp _
  · rw [winnerLess_eq]
    exact srt.sorted winnerCmp _
  · intro a ha b hb heq
    exact winner_eq_of_key hclash (hperm.mem_iff.mp ha) (hperm.mem_iff.mp hb) (key_eq_of_winnerCmp heq)

/-! ## The two corners -/

theorem exists_orders_of_tie (h : k.EmptyRootTie votes threshold) :
    ∃ o o', k.selectWinners o threshold (k.tally votes) ≠ k.selectWinners o' threshold (k.tally votes) := by
  obtain ⟨key, root, hroot, hempty, hother⟩ := h
  obtain ⟨⟨o, ho⟩, hvoted⟩ := exists_order_iff_canWin.mpr ⟨hempty, .inl hempty⟩
  obtain ⟨⟨o', ho'⟩, hvoted'⟩ := exists_order_iff_canWin.mpr ⟨hother, .inl hempty⟩
  refine ⟨o, o', fun heq => hroot ?_⟩
  rw [← mem_selectWinners, ← heq, mem_selectWinners] at ho'
  have hsame := winner_eq_of_votes_ne ho' hvoted' ho hvoted rfl
  exact root_eq_of_votesFor_eq hvoted' (congrArg Winner.votes hsame)

theorem winnerLess_of_emptyKey {a b : Winner} (ha : a.key = ⟨[], []⟩) : winnerLess b a = false := by
  simp [winnerLess, ha]

/-- An entry that is visited first yields the first winner, if that has the key of two empty strings;
the inner loops run over the maps as they are kept. -/
theorem exists_order_head {roots : RootMap} {w : Winner}
    (hroots : (k.tally votes).lookup key = some roots) (hw : w.key = ⟨[], []⟩)
    (hentry : entryWinner ⟨.kept, fun _ => .kept⟩ threshold (key, roots) = some w) :
    ∃ o, ((k.withSort .insertion).selectWinners o threshold (k.tally votes)).head? = some w := by
  obtain ⟨l₁, l₂, hsplit⟩ := List.append_of_mem (GoMap.mem_items.mpr hroots)
  have hperm : ((key, roots) :: (l₁ ++ l₂)).Perm (GoMap.items (k.tally votes)) := by
    rw [hsplit]
    exact List.perm_middle.symm
  let o : TallyOrder := ⟨.visiting (k.tally votes) _ hperm, fun _ => .kept⟩
  refine ⟨o, ?_⟩
  have hcollect : collectWinners o threshold (k.tally votes) = w :: (l₁ ++ l₂).filterMap (entryWinner o threshold) := by
    simp only [collectWinners, o, GoMap.RangeOrder.visiting_items]
    exact List.filterMap_cons_some hentry
  rw [Keeper.selectWinners, hcollect]
  exact SliceSort.insertion_head fun b _ => winnerLess_of_emptyKey hw

theorem exists_orders_of_clash (h : k.ZeroWinnerClash votes threshold) :
    ∃ o o', (k.withSort .insertion).selectWinners o threshold (k.tally votes) ≠
      (k.withSort .insertion).selectWinners o' threshold (k.tally votes) := by
  obtain ⟨⟨key, hunmet⟩, root, hlead⟩ := h
  obtain ⟨roots, hroots⟩ := tally_lookup_isSome_iff.mpr hunmet.voted
  obtain ⟨roots', hroots'⟩ := tally_lookup_isSome_iff.mpr ⟨root, hlead.voted⟩
  obtain ⟨root', hlead', hentry'⟩ := entryWinner_of_leads ⟨.kept, fun _ => .kept⟩ hroots' hlead
  obtain ⟨o, ho⟩ := exists_order_head hroots rfl (entryWinner_of_unmet _ hroots hunmet)
  obtain ⟨o', ho'⟩ := exists_order_head hroots' rfl hentry'
  refine ⟨o, o', fun heq => hlead'.voted ?_⟩
  rw [heq, ho'] at ho
  exact congrArg Winner.votes (Option.some.inj ho)

/-! ## The result -/

theorem processVoteExtensions_eq (o : TallyOrder) (blockHeight : UInt64) (s : State β)
    (hparams : getParams s.store = .ok params) :
    k.processVoteExtensions o blockHeight s commit =
      (Outcome.ofOption (k.winners params o commit) >>= k.writeWinners blockHeight s) := by
  have htotal : (k.tallyVotes commit.votes).2 = k.totalPower commit.votes := rfl
  simp only [Keeper.processVoteExtensions, hparams, Keeper.winners, Outcome.ok_bind, htotal]
  cases params.quorumThreshold (k.totalPower commit.votes) <;> rfl

/-- **Order independence of the tally.**  Whatever the parameters, the powers and the sort: the winners of a commit,
and all writes and calls, are the same for any two map orders if and only if the threshold panics, or no key has a tie
with the empty root and no initial winner clashes. -/
theorem orderFree_iff (k : Keeper β) (params : Params) (commit : ExtendedCommitInfo) :
    OrderFree k params commit ↔ ∀ threshold, params.quorumThreshold (k.totalPower commit.votes) = some threshold →
        ¬ k.EmptyRootTie commit.votes threshold ∧ ¬ k.ZeroWinnerClash commit.votes threshold := by
  constructor
  · intro hfree threshold hth
    have hsame : ∀ srt o o', (k.withSort srt).selectWinners o threshold (k.tally commit.votes) =
        (k.withSort srt).selectWinners o' threshold (k.tally commit.votes) := by
      intro srt o o'
      simpa [Keeper.winners, hth] using hfree.winners srt o o'
    constructor
    · intro htie
      obtain ⟨o, o', hne⟩ := exists_orders_of_tie htie
      have hsame' := hsame k.sliceSort o o'
      exact hne hsame'
    · intro hclash
      obtain ⟨o, o', hne⟩ := exists_orders_of_clash hclash
      exact hne (hsame .insertion o o')
  · intro hcond
    have hwinners : ∀ srt o o',
        (k.withSort srt).winners params o commit = (k.withSort srt).winners params o' commit := by
      intro srt o o'
      simp only [Keeper.winners, withSort_totalPower, withSort_tally]
      cases hth : params.quorumThreshold (k.totalPower commit.votes) with
      | none => rw [Option.map_none, Option.map_none]
      | some threshold =>
        obtain ⟨htie, hclash⟩ := hcond threshold hth
        rw [Option.map_some, Option.map_some, selectWinners_order_free srt htie hclash o o']
    refine ⟨hwinners, fun srt o o' blockHeight s hparams => ?_⟩
    rw [processVoteExtensions_eq o blockHeight s hparams,
      processVoteExtensions_eq o' blockHeight s hparams, hwinners srt o o']

/-! A commit of two validators of power 1, under the default parameters: both extensions name the chain
`c` and the algorithm `a`, the first with an empty root and the second with the root `ab`. -/

def tieKeeper : Keeper Unit :=
  Tables.keeper { extensions := [[], [0xab]].map fun root =>
    (plainExtensionBytes (ascii "c") (ascii "a") root, plainExtension (ascii "c") (ascii "a") root) }

def tieCommit : ExtendedCommitInfo :=
  ⟨[⟨[1], 1, plainExtensionBytes (ascii "c") (ascii "a") []⟩,
    ⟨[2], 1, plainExtensionBytes (ascii "c") (ascii "a") [0xab]⟩]⟩

def Keeper.winnerRoots (k : Keeper β) (params : Params) (o : TallyOrder)
    (commit : ExtendedCommitInfo) : Option (List (List Bytes)) :=
  (k.winners params o commit).map fun ws => ws.map fun w => w.votes.map RootVote.root

/-- One map order stores the empty root, the other one stores `ab`. -/
theorem tieCommit_order_dependent :
    tieKeeper.winnerRoots defaultParams ⟨.kept, fun _ => .kept⟩ tieCommit = some [[[]]] ∧
      tieKeeper.winnerRoots defaultParams ⟨.kept, fun _ => .reversed⟩ tieCommit = some [[[0xab]]] ∧
      ¬ OrderFree tieKeeper defaultParams tieCommit := by
  have hkept : tieKeeper.winnerRoots defaultParams ⟨.kept, fun _ => .kept⟩ tieCommit = some [[[]]] := by decide
  have hreversed : tieKeeper.winnerRoots defaultParams ⟨.kept, fun _ => .reversed⟩ tieCommit =
      some [[[0xab]]] := by decide
  refine ⟨hkept, hreversed, fun hfree => ?_⟩
  have hsame := hfree.winners tieKeeper.sliceSort ⟨.kept, fun _ => .kept⟩ ⟨.kept, fun _ => .reversed⟩
  rw [withSort_self] at hsame
  rw [Keeper.winnerRoots, hsame] at hkept
  exact absurd hkept (by decide)

end Hashmerchant
