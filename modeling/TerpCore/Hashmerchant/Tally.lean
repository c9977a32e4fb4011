/-
  What the tally holds.
-/
import TerpCore.Hashmerchant.VoteExt
import Mathlib.Data.List.Induction

namespace Hashmerchant

open Lib Option

variable {β : Type} (k : Keeper β)

/-! ## The votes for a root -/

/-- The data of a vote that takes part in the tally. -/
def Keeper.decoded (vote : ExtendedVoteInfo) : Option VoteExtensionHashData :=
  if vote.voteExtension = [] then none else k.unmarshalVoteExtension vote.voteExtension

def VoteExtensionHashData.IsFor (data : VoteExtensionHashData) (key : TallyKey) (root : Bytes) : Prop :=
  data.chainUid = key.chainUID ∧ data.algo = key.algo ∧ data.root = root

instance (data : VoteExtensionHashData) (key : TallyKey) (root : Bytes) : Decidable (data.IsFor key root) := by
  unfold VoteExtensionHashData.IsFor
  infer_instance

/-- The entry of a vote in the tally under `key` and `root`, if it has one. -/
def Keeper.voteFor (key : TallyKey) (root : Bytes) (vote : ExtendedVoteInfo) : Option RootVote :=
  (k.decoded vote).bind fun data =>
    if data.IsFor key root then some (k.rootVote vote.power data) else none

/-- The votes for the root `root` of `key`, in the order of the commit. -/
def Keeper.votesFor (votes : List ExtendedVoteInfo) (key : TallyKey) (root : Bytes) : List RootVote :=
  votes.filterMap (k.voteFor key root)

def Keeper.power (votes : List ExtendedVoteInfo) (key : TallyKey) (root : Bytes) : Int64 :=
  votesPower (k.votesFor votes key root)

variable {k}

theorem mem_votesFor {votes : List ExtendedVoteInfo} {key : TallyKey} {root : Bytes} {v : RootVote} :
    v ∈ k.votesFor votes key root ↔ ∃ vote ∈ votes, ∃ data, k.decoded vote = some data ∧ data.IsFor key root ∧
        v = k.rootVote vote.power data := by
  simp only [Keeper.votesFor, Keeper.voteFor, List.mem_filterMap, bind_eq_some_iff,
    ite_none_right_eq_some, Option.some.injEq]
  constructor
  · rintro ⟨vote, hvote, data, hdata, hfor, rfl⟩
    exact ⟨vote, hvote, data, hdata, hfor, rfl⟩
  · rintro ⟨vote, hvote, data, hdata, hfor, rfl⟩
    exact ⟨vote, hvote, data, hdata, hfor, rfl⟩

theorem root_of_mem_votesFor {votes : List ExtendedVoteInfo} {key : TallyKey} {root : Bytes}
    {v : RootVote} (h : v ∈ k.votesFor votes key root) : v.root = root := by
  obtain ⟨vote, -, data, -, hfor, rfl⟩ := mem_votesFor.mp h
  exact hfor.2.2

theorem votesFor_append_singleton (votes : List ExtendedVoteInfo) (vote : ExtendedVoteInfo)
    (key : TallyKey) (root : Bytes) :
    k.votesFor (votes ++ [vote]) key root = k.votesFor votes key root ++ (k.voteFor key root vote).toList := by
  cases h : k.voteFor key root vote <;> simp [Keeper.votesFor, h]

/-! ## The total power -/

theorem tallyVotes_append_singleton (votes : List ExtendedVoteInfo) (vote : ExtendedVoteInfo) :
    k.tallyVotes (votes ++ [vote]) = k.tallyVote (k.tallyVotes votes) vote := by
  rw [Keeper.tallyVotes, List.foldl_concat, Keeper.tallyVotes]

theorem tallyVote_eq (st : Tally × Int64) (vote : ExtendedVoteInfo) :
    k.tallyVote st vote =
      ((match k.decoded vote with
        | none => st.1
        | some data => Tally.add st.1 ⟨data.chainUid, data.algo⟩ (hex data.root)
            (k.rootVote vote.power data)), st.2 + vote.power) := by
  simp only [Keeper.tallyVote, Keeper.decoded]
  split_ifs with hext
  · rfl
  · cases k.unmarshalVoteExtension vote.voteExtension <;> rfl

variable (k) in
def Keeper.totalPower (votes : List ExtendedVoteInfo) : Int64 := (k.tallyVotes votes).2

theorem totalPower_append_singleton (votes : List ExtendedVoteInfo) (vote : ExtendedVoteInfo) :
    k.totalPower (votes ++ [vote]) = k.totalPower votes + vote.power := by
  rw [Keeper.totalPower, tallyVotes_append_singleton, tallyVote_eq, Keeper.totalPower]

/-! ## The maps -/

variable (k) in
def Keeper.tally (votes : List ExtendedVoteInfo) : Tally := (k.tallyVotes votes).1

def Tally.votes (t : Tally) (key : TallyKey) (rootHex : Bytes) : List RootVote :=
  (((t.lookup key).getD ∅).lookup rootHex).getD []

/-- No key without a root, and no root without a vote. -/
structure Tally.WF (t : Tally) : Prop where
  roots_ne : ∀ key roots, t.lookup key = some roots → ∃ h, roots.lookup h ≠ none
  votes_ne : ∀ key roots h, t.lookup key = some roots → roots.lookup h ≠ some []

theorem Tally.votes_add (t : Tally) (key key' : TallyKey) (h h' : Bytes) (v : RootVote) :
    (t.add key h v).votes key' h' =
      if key = key' ∧ h = h' then t.votes key' h' ++ [v] else t.votes key' h' := by
  by_cases hkey : key = key'
  · subst hkey
    by_cases hh : h = h'
    · subst hh
      simp [Tally.votes, Tally.add]
    · simp [Tally.votes, Tally.add, AList.lookup_insert_ne (Ne.symm hh), hh]
  · simp [Tally.votes, Tally.add, AList.lookup_insert_ne (Ne.symm hkey), hkey]

theorem Tally.WF.add {t : Tally} (ht : t.WF) (key : TallyKey) (h : Bytes) (v : RootVote) : (t.add key h v).WF := by
  constructor
  · intro key' roots hroots
    by_cases hkey : key' = key
    · subst hkey
      rw [Tally.add, AList.lookup_insert, Option.some.injEq] at hroots
      exact ⟨h, by simp [← hroots]⟩
    · rw [Tally.add, AList.lookup_insert_ne hkey] at hroots
      exact ht.roots_ne key' roots hroots
  · intro key' roots h' hroots
    by_cases hkey : key' = key
    · subst hkey
      rw [Tally.add, AList.lookup_insert, Option.some.injEq] at hroots
      rw [← hroots]
      by_cases hh : h' = h
      · rw [hh]
        simp
      · rw [AList.lookup_insert_ne hh]
        cases hold : t.lookup key' with
        | none => simp
        | some old => exact ht.votes_ne key' old h' hold
    · rw [Tally.add, AList.lookup_insert_ne hkey] at hroots
      exact ht.votes_ne key' roots h' hroots

section

variable (votes : List ExtendedVoteInfo)

theorem tally_append_singleton (vote : ExtendedVoteInfo) : k.tally (votes ++ [vote]) =
      match k.decoded vote with
      | none => k.tally votes
      | some data => (k.tally votes).add ⟨data.chainUid, data.algo⟩ (hex data.root)
          (k.rootVote vote.power data) := by
  rw [Keeper.tally, tallyVotes_append_singleton, tallyVote_eq, Keeper.tally]

theorem tally_wf : (k.tally votes).WF := by
  induction votes using List.reverseRecOn with
  | nil => constructor <;> simp [Keeper.tally, Keeper.tallyVotes]
  | append_singleton votes vote ih =>
    rw [tally_append_singleton]
    cases k.decoded vote with
    | none => exact ih
    | some data => exact ih.add _ _ _

/-- **The tally holds the votes of the commit**: under a key and a root, those that carry both. -/
theorem tally_votes (key : TallyKey) (root : Bytes) :
    (k.tally votes).votes key (hex root) = k.votesFor votes key root := by
  induction votes using List.reverseRecOn with
  | nil => simp [Keeper.tally, Keeper.tallyVotes, Tally.votes, Keeper.votesFor]
  | append_singleton votes vote ih =>
    rw [tally_append_singleton, votesFor_append_singleton, Keeper.voteFor]
    cases k.decoded vote with
    | none => simpa using ih
    | some data =>
      have hcond : ((⟨data.chainUid, data.algo⟩ : TallyKey) = key ∧ hex data.root = hex root) ↔
          data.IsFor key root := by
        obtain ⟨chainUID, algo⟩ := key
        simp [VoteExtensionHashData.IsFor, hex_injective.eq_iff, and_assoc]
      simp only [Tally.votes_add, hcond, ih, bind_some]
      split_ifs <;> simp

end

theorem tally_votes_hex {votes : List ExtendedVoteInfo} {key : TallyKey} {h : Bytes}
    (hne : (k.tally votes).votes key h ≠ []) : ∃ root, h = hex root := by
  induction votes using List.reverseRecOn with
  | nil => simp [Keeper.tally, Keeper.tallyVotes, Tally.votes] at hne
  | append_singleton votes vote ih =>
    rw [tally_append_singleton] at hne
    cases hdata : k.decoded vote with
    | none =>
      rw [hdata] at hne
      exact ih hne
    | some data =>
      simp only [hdata, Tally.votes_add] at hne
      split_ifs at hne with hcond
      · exact ⟨data.root, hcond.2.symm⟩
      · exact ih hne

theorem tally_entry_iff {votes : List ExtendedVoteInfo} {key : TallyKey} {roots : RootMap}
    (hroots : (k.tally votes).lookup key = some roots) {e : Bytes × List RootVote} :
    e ∈ roots.items ↔ ∃ root, e = (hex root, k.votesFor votes key root) ∧ k.votesFor votes key root ≠ [] := by
  obtain ⟨h, vs⟩ := e
  have hvotes : (k.tally votes).votes key h = (roots.lookup h).getD [] := by
    simp [Tally.votes, hroots]
  rw [GoMap.mem_items]
  constructor
  · intro hlook
    have hvs : (k.tally votes).votes key h = vs := by rw [hvotes, hlook, getD_some]
    have hne : vs ≠ [] := by
      rintro rfl
      exact (tally_wf votes).votes_ne key roots h hroots hlook
    obtain ⟨root, rfl⟩ := tally_votes_hex (by rw [hvs]; exact hne)
    rw [tally_votes] at hvs
    exact ⟨root, by rw [hvs], by rw [hvs]; exact hne⟩
  · rintro ⟨root, he, hne⟩
    cases he
    rw [← tally_votes, hvotes] at hne ⊢
    cases hlook : roots.lookup (hex root) with
    | none => simp [hlook] at hne
    | some vs => rfl

theorem tally_lookup_isSome_iff {votes : List ExtendedVoteInfo} {key : TallyKey} :
    (∃ roots, (k.tally votes).lookup key = some roots) ↔ ∃ root, k.votesFor votes key root ≠ [] := by
  constructor
  · rintro ⟨roots, hroots⟩
    obtain ⟨h, hlook⟩ := (tally_wf votes).roots_ne key roots hroots
    obtain ⟨vs, hvs⟩ := ne_none_iff_exists'.mp hlook
    obtain ⟨root, -, hne⟩ := (tally_entry_iff hroots).mp (GoMap.mem_items.mpr hvs)
    exact ⟨root, hne⟩
  · rintro ⟨root, hne⟩
    rw [← tally_votes] at hne
    cases hlook : (k.tally votes).lookup key with
    | none => simp [Tally.votes, hlook] at hne
    | some roots => exact ⟨roots, rfl⟩

end Hashmerchant
