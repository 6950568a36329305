import PbftBlock.ConsensusBasics

/-!
# The verdict on a certificate

`GetValidResFromCommit` counts each sender once and compares the approvals seen,
and those still possible, with the quorum. When every sender has one opinion, its
answer is the best that can be said from the commits at hand: a final answer is
one that no further commit can change, and all nodes reach the same one.
-/

namespace PbftBlock.VerdictFinality

open PbftBlock.ConsensusMessages PbftBlock.ConsensusWorker PbftBlock.ConsensusBasics
open PbftBlock.Library.DistinctVotes

set_option autoImplicit false

/-- The senders of a network and what each of them thinks of a block. -/
structure Assignment where
  senders : Finset String
  opinion : String → Bool

/-- The commits of the cert are by senders of the assignment, each with the
opinion of its sender; they may be few, repeated and in any order. -/
def Drawn (assignment : Assignment) (cert : MsgCert) : Prop :=
  ∀ commit ∈ cert.commit, commit.sender ∈ assignment.senders ∧
    commit.vr.opinion = assignment.opinion commit.sender

/-- Opinions that the commits of the cert do not contradict. -/
def CompatibleWith (cert : MsgCert) (opinion : String → Bool) : Prop :=
  ∀ commit ∈ cert.commit, commit.vr.opinion = opinion commit.sender

def seenIn (cert : MsgCert) : Finset String := (cert.commit.map Commit.sender).toFinset

def addCommits (cert : MsgCert) (more : List Commit) : MsgCert :=
  { cert with commit := cert.commit ++ more }

section OneCert

variable {worker : Worker} {assignment : Assignment} {cert : MsgCert}

theorem seen_in_subset (drawn : Drawn assignment cert) : seenIn cert ⊆ assignment.senders := by
  intro name member
  obtain ⟨commit, inside, rfl⟩ := List.mem_map.mp (List.mem_toFinset.mp member)
  exact (drawn commit inside).1

theorem seen_in_add_commits (cert : MsgCert) (more : List Commit) :
    seenIn cert ⊆ seenIn (addCommits cert more) := by
  intro name member
  unfold seenIn addCommits at *
  rw [List.map_append, List.toFinset_append]
  exact Finset.mem_union_left _ member

theorem drawn_compatible (drawn : Drawn assignment cert) :
    CompatibleWith cert assignment.opinion :=
  fun commit member => (drawn commit member).2

theorem verdict_eq {opinion : String → Bool} (worker : Worker)
    (compatible : CompatibleWith cert opinion) :
    getValidResFromCommit worker cert =
      if getQuorum worker ≤ (approvals (seenIn cert) opinion : Int) then .possitive
      else if getQuorum worker ≤
          (approvals (seenIn cert) opinion : Int) + (worker.N - ((seenIn cert).card : Int)) then
        .futurePossitive
      else .negative := by
  have poss := counted_approvals Commit.sender (fun com => com.vr.opinion) opinion cert.commit
    compatible
  have all := counted_length Commit.sender cert.commit
  unfold getValidResFromCommit getCurrentCSNum
  dsimp only
  rw [poss, all]
  rfl

theorem verdict_possitive_iff (drawn : Drawn assignment cert) :
    getValidResFromCommit worker cert = .possitive ↔
      getQuorum worker ≤ (approvals (seenIn cert) assignment.opinion : Int) := by
  rw [verdict_eq worker (drawn_compatible drawn)]
  split_ifs with enough possible
  · simp [enough]
  · simp [enough]
  · simp [enough]

theorem verdict_negative_iff (size : worker.N = assignment.senders.card)
    (drawn : Drawn assignment cert) :
    getValidResFromCommit worker cert = .negative ↔
      (approvals (seenIn cert) assignment.opinion : Int) +
        (assignment.senders.card - (seenIn cert).card) < getQuorum worker := by
  have few := Finset.card_le_card (seen_in_subset drawn)
  rw [verdict_eq worker (drawn_compatible drawn), size]
  split_ifs with enough possible
  · simp only [false_iff]
    omega
  · simp only [false_iff]
    omega
  · simp only [true_iff]
    omega

theorem verdict_future_iff (size : worker.N = assignment.senders.card)
    (drawn : Drawn assignment cert) :
    getValidResFromCommit worker cert = .futurePossitive ↔
      (approvals (seenIn cert) assignment.opinion : Int) < getQuorum worker ∧
        getQuorum worker ≤ (approvals (seenIn cert) assignment.opinion : Int) +
          (assignment.senders.card - (seenIn cert).card) := by
  rw [verdict_eq worker (drawn_compatible drawn), size]
  split_ifs with enough possible
  · simp only [false_iff]
    omega
  · simp only [true_iff]
    omega
  · simp only [false_iff]
    omega

/-- A final verdict stays when commits of the same senders are added. -/
theorem verdict_stable (size : worker.N = assignment.senders.card) (more : List Commit)
    (drawn : Drawn assignment cert) (drawnMore : Drawn assignment (addCommits cert more))
    (final : getValidResFromCommit worker cert ≠ .futurePossitive) :
    getValidResFromCommit worker (addCommits cert more) = getValidResFromCommit worker cert := by
  have grows := seen_in_add_commits cert more
  have up := approvals_mono assignment.opinion grows
  have down := approvals_le_of_seen assignment.opinion grows
  cases verdict : getValidResFromCommit worker cert with
  | futurePossitive => exact absurd verdict final
  | possitive =>
      rw [verdict_possitive_iff drawn] at verdict
      rw [verdict_possitive_iff drawnMore]
      omega
  | negative =>
      rw [verdict_negative_iff size drawn] at verdict
      rw [verdict_negative_iff size drawnMore]
      omega

theorem approvals_compatible {opinion : String → Bool} (drawn : Drawn assignment cert)
    (compatible : CompatibleWith cert opinion) :
    approvals (seenIn cert) opinion = approvals (seenIn cert) assignment.opinion := by
  unfold approvals
  congr 1
  apply Finset.filter_congr
  intro name member
  obtain ⟨commit, inside, rfl⟩ := List.mem_map.mp (List.mem_toFinset.mp member)
  rw [← compatible commit inside, (drawn commit inside).2]

theorem completed_compatible (drawn : Drawn assignment cert) (rest : Bool) :
    CompatibleWith cert (completedWith (seenIn cert) assignment.opinion rest) := by
  intro commit member
  have known : commit.sender ∈ seenIn cert :=
    List.mem_toFinset.mpr (List.mem_map.mpr ⟨commit, member, rfl⟩)
  unfold completedWith
  rw [if_pos known]
  exact (drawn commit member).2

/-- The verdict is open exactly while the opinions seen leave both outcomes. -/
theorem verdict_open_iff (size : worker.N = assignment.senders.card)
    (drawn : Drawn assignment cert) :
    getValidResFromCommit worker cert = .futurePossitive ↔
      (∃ opinion, CompatibleWith cert opinion ∧
        getQuorum worker ≤ (approvals assignment.senders opinion : Int)) ∧
      ∃ opinion, CompatibleWith cert opinion ∧
        (approvals assignment.senders opinion : Int) < getQuorum worker := by
  have inside := seen_in_subset drawn
  rw [verdict_future_iff size drawn]
  constructor
  · rintro ⟨low, high⟩
    have all := approvals_completed_true assignment.opinion inside
    have noMore := approvals_completed_false assignment.opinion inside
    exact ⟨⟨_, completed_compatible drawn true, by omega⟩,
      _, completed_compatible drawn false, by omega⟩
  · rintro ⟨⟨high, highCompatible, enough⟩, low, lowCompatible, few⟩
    have highSeen := approvals_compatible drawn highCompatible
    have lowSeen := approvals_compatible drawn lowCompatible
    have highBound := approvals_le_of_seen high inside
    have lowBound := approvals_mono low inside
    omega

theorem verdict_complete (size : worker.N = assignment.senders.card)
    (drawn : Drawn assignment cert) (complete : assignment.senders ⊆ seenIn cert) :
    getValidResFromCommit worker cert =
      if getQuorum worker ≤ (approvals assignment.senders assignment.opinion : Int) then .possitive
      else .negative := by
  have all : seenIn cert = assignment.senders :=
    Finset.Subset.antisymm (seen_in_subset drawn) complete
  split_ifs with enough
  · rwa [verdict_possitive_iff drawn, all]
  · rw [verdict_negative_iff size drawn, all]
    omega

end OneCert

/-- For two nodes and two certificates filled from one assignment of opinions:
the verdicts never contradict each other, a final verdict stays when commits are
added, it is open exactly while both outcomes are possible, and on a complete
certificate it says whether the approvals reach the quorum. -/
theorem verdict_final_and_common (assignment : Assignment) (leftWorker rightWorker : Worker)
    (leftSize : leftWorker.N = assignment.senders.card)
    (rightSize : rightWorker.N = assignment.senders.card)
    (left right : MsgCert) (leftDrawn : Drawn assignment left)
    (rightDrawn : Drawn assignment right) :
    ¬(getValidResFromCommit leftWorker left = .possitive ∧
        getValidResFromCommit rightWorker right = .negative) ∧
      (∀ more, Drawn assignment (addCommits left more) →
        getValidResFromCommit leftWorker left ≠ .futurePossitive →
        getValidResFromCommit leftWorker (addCommits left more) =
          getValidResFromCommit leftWorker left) ∧
      (getValidResFromCommit leftWorker left = .futurePossitive ↔
        (∃ opinion, CompatibleWith left opinion ∧
          getQuorum leftWorker ≤ (approvals assignment.senders opinion : Int)) ∧
        ∃ opinion, CompatibleWith left opinion ∧
          (approvals assignment.senders opinion : Int) < getQuorum leftWorker) ∧
      (assignment.senders ⊆ seenIn left →
        getValidResFromCommit leftWorker left =
          if getQuorum leftWorker ≤ (approvals assignment.senders assignment.opinion : Int) then
            .possitive
          else .negative) := by
  refine ⟨?_, fun more drawnMore final => verdict_stable leftSize more leftDrawn drawnMore final,
    verdict_open_iff leftSize leftDrawn, verdict_complete leftSize leftDrawn⟩
  rintro ⟨positive, negative⟩
  have quorum : getQuorum leftWorker = getQuorum rightWorker := by
    simp only [getQuorum, leftSize, rightSize]
  rw [verdict_possitive_iff leftDrawn, quorum] at positive
  rw [verdict_negative_iff rightSize rightDrawn] at negative
  have leftBound := approvals_mono assignment.opinion (seen_in_subset leftDrawn)
  have rightBound := approvals_le_of_seen assignment.opinion (seen_in_subset rightDrawn)
  omega

def opinionVote (sender : String) (opinion : Bool) : Commit :=
  ⟨sender, 1, 5, "5", ⟨sender, 2, "2", hexToAddress "a", opinion, sender⟩⟩

def threeOfFour : Assignment where
  senders := {"a", "b", "c", "d"}
  opinion name := name != "d"

def approvingCert : MsgCert :=
  { commit := [opinionVote "c" true, opinionVote "a" true, opinionVote "c" true,
      opinionVote "b" true] }

def objectingCert : MsgCert := { commit := [opinionVote "d" false, opinionVote "a" true] }

theorem verdict_final_and_common_for_three_of_four :
    getValidResFromCommit (startWorker "a" "a" 4) approvingCert = .possitive ∧
      getValidResFromCommit (startWorker "b" "a" 4) objectingCert = .futurePossitive ∧
      getValidResFromCommit (startWorker "a" "a" 4)
          (addCommits approvingCert [opinionVote "d" false]) =
        getValidResFromCommit (startWorker "a" "a" 4) approvingCert := by
  have leftDrawn : Drawn threeOfFour approvingCert := by
    simp [Drawn, threeOfFour, approvingCert, opinionVote]
  have rightDrawn : Drawn threeOfFour objectingCert := by
    simp [Drawn, threeOfFour, objectingCert, opinionVote]
  have laterDrawn : Drawn threeOfFour (addCommits approvingCert [opinionVote "d" false]) := by
    simp [Drawn, threeOfFour, addCommits, approvingCert, opinionVote]
  have facts := verdict_final_and_common threeOfFour (startWorker "a" "a" 4)
    (startWorker "b" "a" 4) rfl rfl approvingCert objectingCert leftDrawn rightDrawn
  exact ⟨by decide +kernel, by decide +kernel,
    facts.2.1 [opinionVote "d" false] laterDrawn (by decide +kernel)⟩

end PbftBlock.VerdictFinality
