import Mathlib.Data.Finset.Card
import Mathlib.Data.List.Dedup

/-!
# Counting each voter once

A tally that walks a list of ballots and skips every voter it has met before
keeps the first ballot of each voter. The second part is the overlap of two
large sets of voters: once their sizes together exceed the membership by more
than the number of faulty members, they share a member that is not faulty.
-/

namespace PbftBlock.Library.DistinctVotes

set_option autoImplicit false

section FirstBallots

variable {Ballot Voter : Type*} [DecidableEq Voter] (voter : Ballot → Voter)

/-- The ballots counted by a scan that has already met the voters in `seen`. -/
def countedAfter : List Voter → List Ballot → List Ballot
  | _, [] => []
  | seen, ballot :: rest =>
      if voter ballot ∈ seen then countedAfter seen rest
      else ballot :: countedAfter (voter ballot :: seen) rest

def counted (ballots : List Ballot) : List Ballot := countedAfter voter [] ballots

theorem counted_after_sublist (seen : List Voter) (ballots : List Ballot) :
    (countedAfter voter seen ballots).Sublist ballots := by
  induction ballots generalizing seen with
  | nil => exact List.Sublist.refl _
  | cons ballot rest ih =>
      unfold countedAfter
      split_ifs
      · exact (ih seen).cons ballot
      · exact (ih (voter ballot :: seen)).cons_cons ballot

theorem counted_sublist (ballots : List Ballot) : (counted voter ballots).Sublist ballots :=
  counted_after_sublist voter [] ballots

theorem counted_after_fresh (seen : List Voter) (ballots : List Ballot) (ballot : Ballot)
    (member : ballot ∈ countedAfter voter seen ballots) : voter ballot ∉ seen := by
  induction ballots generalizing seen with
  | nil => simp [countedAfter] at member
  | cons head rest ih =>
      unfold countedAfter at member
      split_ifs at member with met
      · exact ih seen member
      · rcases List.mem_cons.mp member with same | later
        · rw [same]
          exact met
        · intro old
          exact ih (voter head :: seen) later (List.mem_cons_of_mem _ old)

theorem counted_after_voters_nodup (seen : List Voter) (ballots : List Ballot) :
    ((countedAfter voter seen ballots).map voter).Nodup := by
  induction ballots generalizing seen with
  | nil => simp [countedAfter]
  | cons head rest ih =>
      unfold countedAfter
      split_ifs
      · exact ih seen
      · rw [List.map_cons, List.nodup_cons]
        refine ⟨?_, ih _⟩
        intro repeated
        obtain ⟨ballot, member, same⟩ := List.mem_map.mp repeated
        have fresh := counted_after_fresh voter (voter head :: seen) rest ballot member
        exact fresh (by simp [same])

theorem counted_voters_nodup (ballots : List Ballot) : ((counted voter ballots).map voter).Nodup :=
  counted_after_voters_nodup voter [] ballots

theorem counted_after_all (seen : List Voter) (ballots : List Ballot)
    (distinct : (ballots.map voter).Nodup)
    (unseen : ∀ ballot ∈ ballots, voter ballot ∉ seen) :
    countedAfter voter seen ballots = ballots := by
  induction ballots generalizing seen with
  | nil => rfl
  | cons head rest ih =>
      rw [List.map_cons, List.nodup_cons] at distinct
      have headUnseen : voter head ∉ seen := unseen head (by simp)
      unfold countedAfter
      rw [if_neg headUnseen, ih (voter head :: seen) distinct.2]
      intro ballot member
      rw [List.mem_cons, not_or]
      refine ⟨?_, unseen ballot (List.mem_cons_of_mem _ member)⟩
      intro same
      exact distinct.1 (List.mem_map.mpr ⟨ballot, member, same⟩)

theorem counted_all (ballots : List Ballot) (distinct : (ballots.map voter).Nodup) :
    counted voter ballots = ballots :=
  counted_after_all voter [] ballots distinct (by simp)

theorem mem_counted_after_voters (seen : List Voter) (ballots : List Ballot) (name : Voter) :
    name ∈ (countedAfter voter seen ballots).map voter ↔
      name ∈ ballots.map voter ∧ name ∉ seen := by
  induction ballots generalizing seen with
  | nil => simp [countedAfter]
  | cons head rest ih =>
      unfold countedAfter
      split_ifs with met
      · rw [ih, List.map_cons, List.mem_cons]
        constructor
        · rintro ⟨later, fresh⟩
          exact ⟨.inr later, fresh⟩
        · rintro ⟨rfl | later, fresh⟩
          · exact absurd met fresh
          · exact ⟨later, fresh⟩
      · rw [List.map_cons, List.mem_cons, ih, List.map_cons, List.mem_cons, List.mem_cons]
        by_cases same : name = voter head
        · simp [same, met]
        · simp [same]

theorem counted_voters_to_finset (ballots : List Ballot) :
    ((counted voter ballots).map voter).toFinset = (ballots.map voter).toFinset := by
  apply Finset.ext
  intro name
  rw [List.mem_toFinset, List.mem_toFinset, counted, mem_counted_after_voters]
  simp

theorem counted_length (ballots : List Ballot) :
    (counted voter ballots).length = (ballots.map voter).toFinset.card := by
  rw [← counted_voters_to_finset, List.toFinset_card_of_nodup (counted_voters_nodup voter ballots),
    List.length_map]

end FirstBallots

section PartialTallies

variable {Ballot Voter : Type*}

def approvals (voters : Finset Voter) (approve : Voter → Bool) : Nat :=
  (voters.filter fun name => approve name = true).card

theorem approvals_mono {seen later : Finset Voter} (approve : Voter → Bool)
    (grows : seen ⊆ later) : approvals seen approve ≤ approvals later approve :=
  Finset.card_le_card (Finset.filter_subset_filter _ grows)

variable [DecidableEq Voter]

/-- Each voter not seen yet adds at most one approval. -/
theorem approvals_le_of_seen {seen later : Finset Voter} (approve : Voter → Bool)
    (grows : seen ⊆ later) :
    approvals later approve + seen.card ≤ approvals seen approve + later.card := by
  have parts : later.filter (fun name => approve name = true) ⊆
      seen.filter (fun name => approve name = true) ∪ later \ seen := by
    intro name member
    rw [Finset.mem_filter] at member
    by_cases known : name ∈ seen
    · exact Finset.mem_union_left _ (Finset.mem_filter.mpr ⟨known, member.2⟩)
    · exact Finset.mem_union_right _ (Finset.mem_sdiff.mpr ⟨member.1, known⟩)
  have bound := (Finset.card_le_card parts).trans (Finset.card_union_le _ _)
  have rest := Finset.card_sdiff_add_card_eq_card grows
  unfold approvals
  omega

/-- The voters seen keep their opinion and all others have the given one. -/
def completedWith (seen : Finset Voter) (approve : Voter → Bool) (rest : Bool) (name : Voter) :
    Bool :=
  if name ∈ seen then approve name else rest

theorem approvals_completed_true {seen members : Finset Voter} (approve : Voter → Bool)
    (inside : seen ⊆ members) :
    approvals members (completedWith seen approve true) + seen.card =
      approvals seen approve + members.card := by
  have parts : members.filter (fun name => completedWith seen approve true name = true) =
      seen.filter (fun name => approve name = true) ∪ members \ seen := by
    apply Finset.ext
    intro name
    rw [Finset.mem_filter, Finset.mem_union, Finset.mem_filter, Finset.mem_sdiff]
    unfold completedWith
    by_cases known : name ∈ seen
    · simp [known, inside known]
    · simp [known]
  have apart : Disjoint (seen.filter fun name => approve name = true) (members \ seen) :=
    Finset.disjoint_of_subset_left (Finset.filter_subset _ _) Finset.disjoint_sdiff
  have count := Finset.card_union_of_disjoint apart
  have rest := Finset.card_sdiff_add_card_eq_card inside
  unfold approvals
  rw [parts, count]
  omega

theorem approvals_completed_false {seen members : Finset Voter} (approve : Voter → Bool)
    (inside : seen ⊆ members) :
    approvals members (completedWith seen approve false) = approvals seen approve := by
  have same : members.filter (fun name => completedWith seen approve false name = true) =
      seen.filter fun name => approve name = true := by
    apply Finset.ext
    intro name
    rw [Finset.mem_filter, Finset.mem_filter]
    unfold completedWith
    by_cases known : name ∈ seen
    · simp [known, inside known]
    · simp [known]
  unfold approvals
  rw [same]

/-- Counting approving ballots once per voter counts approving voters, when a
ballot says what its voter thinks. -/
theorem counted_approvals (voter : Ballot → Voter) (opinion : Ballot → Bool)
    (approve : Voter → Bool) (ballots : List Ballot)
    (honest : ∀ ballot ∈ ballots, opinion ballot = approve (voter ballot)) :
    (counted voter ballots).countP opinion =
      approvals (ballots.map voter).toFinset approve := by
  have distinct := counted_voters_nodup voter ballots
  have opinions : (counted voter ballots).countP opinion =
      ((counted voter ballots).map voter).countP approve := by
    rw [List.countP_map]
    apply List.countP_congr
    intro ballot member
    rw [honest ballot ((counted_sublist voter ballots).subset member)]
    rfl
  rw [opinions, List.countP_eq_length_filter, ← counted_voters_to_finset,
    ← List.toFinset_card_of_nodup (distinct.filter _), List.toFinset_filter]
  rfl

end PartialTallies

section RepeatedVotes

variable {Voter : Type*} [DecidableEq Voter]

/-- A tally by entries is as good as one by voters while no voter repeats, or
once enough different voters are in it. -/
def TallySound (quorum : Int) (votes : List Voter) : Prop :=
  votes.Nodup ∨ quorum ≤ (votes.toFinset.card : Int)

theorem tally_sound_append {quorum : Int} {votes : List Voter} {voter : Voter}
    (sound : TallySound quorum votes)
    (admitted : voter ∉ votes ∨ quorum ≤ (votes.toFinset.card : Int)) :
    TallySound quorum (votes ++ [voter]) := by
  have grows : votes.toFinset.card ≤ (votes ++ [voter]).toFinset.card := by
    apply Finset.card_le_card
    rw [List.toFinset_append]
    exact Finset.subset_union_left
  rcases sound with distinct | enough
  · rcases admitted with fresh | enough
    · left
      rw [← List.concat_eq_append]
      exact distinct.concat fresh
    · exact .inr (by omega)
  · exact .inr (by omega)

theorem quorum_of_tally {quorum : Int} {votes : List Voter} (sound : TallySound quorum votes)
    (enough : quorum ≤ (votes.length : Int)) : quorum ≤ (votes.toFinset.card : Int) := by
  rcases sound with distinct | reached
  · rwa [List.toFinset_card_of_nodup distinct]
  · exact reached

end RepeatedVotes

section Overlap

variable {Voter : Type*} [DecidableEq Voter]

theorem overlap_outside_faulty (members faulty left right : Finset Voter)
    (leftMembers : left ⊆ members) (rightMembers : right ⊆ members)
    (large : members.card + faulty.card < left.card + right.card) :
    ∃ voter, voter ∈ left ∧ voter ∈ right ∧ voter ∉ faulty := by
  have together : (left ∪ right).card ≤ members.card :=
    Finset.card_le_card (Finset.union_subset leftMembers rightMembers)
  have split := Finset.card_union_add_card_inter left right
  have shared : faulty.card < (left ∩ right).card := by omega
  obtain ⟨voter, both, sound⟩ := Finset.exists_mem_notMem_of_card_lt_card shared
  obtain ⟨inLeft, inRight⟩ := Finset.mem_inter.mp both
  exact ⟨voter, inLeft, inRight, sound⟩

/-- Enough members stand behind a value: those of them that are not faulty have
voted for it. -/
def Supported {Value : Type*} (members faulty : Finset Voter) (voted : Voter → Value → Prop)
    (quorum : Int) (value : Value) : Prop :=
  ∃ voters, voters ⊆ members ∧ quorum ≤ (voters.card : Int) ∧
    ∀ voter ∈ voters, voter ∉ faulty → voted voter value

/-- Members that are not faulty vote once, so two supported values are one. -/
theorem supported_unique {Value : Type*} {members faulty : Finset Voter}
    {voted : Voter → Value → Prop} {quorum : Int}
    (once : ∀ voter ∈ members, voter ∉ faulty → ∀ left right, voted voter left →
      voted voter right → left = right)
    (large : (members.card : Int) + faulty.card < 2 * quorum) {left right : Value}
    (leftSupport : Supported members faulty voted quorum left)
    (rightSupport : Supported members faulty voted quorum right) : left = right := by
  obtain ⟨leftVoters, leftMembers, leftEnough, leftVoted⟩ := leftSupport
  obtain ⟨rightVoters, rightMembers, rightEnough, rightVoted⟩ := rightSupport
  obtain ⟨voter, inLeft, inRight, sound⟩ := overlap_outside_faulty members faulty leftVoters
    rightVoters leftMembers rightMembers (by omega)
  exact once voter (leftMembers inLeft) sound left right (leftVoted voter inLeft sound)
    (rightVoted voter inRight sound)

end Overlap

end PbftBlock.Library.DistinctVotes
