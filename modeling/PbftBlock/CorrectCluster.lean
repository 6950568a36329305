import PbftBlock.RequestNumbers

/-!
# Agreement among correct nodes

All nodes run the code and nothing else is on the links. Messages may still be
lost, repeated and reordered, and a node that is never scheduled again has
stopped.
-/

namespace PbftBlock.CorrectCluster

open PbftBlock.ConsensusMessages PbftBlock.ConsensusWorker PbftBlock.ConsensusBasics
open PbftBlock.NodeMachine PbftBlock.NodeContents PbftBlock.ConsensusNetwork
open PbftBlock.NetworkContents PbftBlock.CommitOncePerHeight PbftBlock.Agreement
open PbftBlock.RequestNumbers
open PbftBlock.Library.GuardedRuns

set_option autoImplicit false

def Genuine (event : NetEvent) : Prop := ∀ envelope, event ≠ .inject envelope

def isGenuine : NetEvent → Bool
  | .inject _ => false
  | _ => true

theorem genuine_of_test {event : NetEvent} (passed : isGenuine event = true) : Genuine event := by
  intro envelope same
  subst same
  cases passed

variable {cluster : Cluster} {allowed : Network → NetEvent → Prop} {net : Network}
  {events : List NetEvent}

theorem run_commits_once
    (run : Run (netStep cluster) allowed (startNetwork cluster) events net) (id : String) :
    (committedHeights (net.replicas id).log).Nodup := by
  obtain ⟨history, nodeRun⟩ := run_projects run id
  exact (run_commits_recorded nodeRun).distinct

/-- Two positive decisions at one height, at any two nodes, are for one view,
one number and one request. -/
theorem correct_nodes_agree (cluster : Cluster) (many : 2 ≤ peersnumOf cluster)
    (events : List NetEvent) (last : Network)
    (run : Run (netStep cluster) (fun _ event => Genuine event) (startNetwork cluster) events last)
    (few : last.submitted.length < 2 ^ 64) (leftNode rightNode : String)
    (leftMember : leftNode ∈ membersOf cluster) (rightMember : rightNode ∈ membersOf cluster)
    (left right : Decision)
    (leftDecided : .insertChain left ∈ (last.replicas leftNode).log)
    (rightDecided : .insertChain right ∈ (last.replicas rightNode).log)
    (same : left.request.blockHeight = right.request.blockHeight) :
    left.commit.view = right.commit.view ∧ left.commit.reqID = right.commit.reqID ∧
      left.request = right.request := by
  have closed : Closed fun (_ : Network) event => Genuine event :=
    fun _ envelope genuine => genuine envelope rfl
  obtain ⟨book, explained⟩ := run_explained_by_book closed run few
  have leftBacked := explained leftNode leftMember _ leftDecided
  have rightBacked := explained rightNode rightMember _ rightDecided
  have large : peersnumOf cluster + (∅ : Finset String).card < 2 * quorumOf cluster := by
    rw [Finset.card_empty, Nat.cast_zero, add_zero]
    exact two_quorums_overlap many
  exact backed_decisions_agree (fun id honest => explained id honest.1)
    (fun id _ => run_commits_once run id)
    (fun id faulty => absurd faulty (Finset.notMem_empty id)) large leftBacked rightBacked same

section TwoNodes

def decisionsOf (log : List Effect) : List Decision :=
  log.filterMap fun
    | .insertChain decision => some decision
    | _ => none

theorem mem_decisions_of {log : List Effect} {decision : Decision} :
    decision ∈ decisionsOf log ↔ .insertChain decision ∈ log := by
  unfold decisionsOf
  rw [List.mem_filterMap]
  constructor
  · rintro ⟨effect, inside, same⟩
    split at same
    · obtain rfl := Option.some.inj same
      exact inside
    · cases same
  · intro inside
    exact ⟨_, inside, rfl⟩

def pairCluster : Cluster := ⟨":5001", [":5002"], by decide⟩

def firstNode : String := "127.0.0.1:5001"

def secondNode : String := "127.0.0.1:5002"

/-- One round of two nodes, up to the decision of both. -/
def pairRound : List NetEvent :=
  [.submit 0 ⟨some (plainBlock 2 0), []⟩, .resume 1 firstNode 0, .resume 2 firstNode 0,
    .resume 3 firstNode 0, .deliver 4 0, .resume 5 secondNode 0, .resume 6 secondNode 0,
    .deliver 7 0, .deliver 8 0, .resume 9 secondNode 0, .deliver 10 0, .deliver 11 0,
    .resume 12 firstNode 0, .deliver 13 0, .deliver 14 0, .deliver 15 0]

theorem correct_nodes_agree_on_pair_round :
    ∃ last left right,
      Run (netStep pairCluster) (fun _ event => Genuine event) (startNetwork pairCluster)
        pairRound last ∧
      .insertChain left ∈ (last.replicas firstNode).log ∧
      .insertChain right ∈ (last.replicas secondNode).log ∧
      left.request.blockHeight = 2 ∧ right.request.blockHeight = 2 ∧
      left.commit.reqID = right.commit.reqID ∧ left.request = right.request := by
  obtain ⟨last, run, passed⟩ : ∃ last,
      Run (netStep pairCluster) (fun _ event => Genuine event) (startNetwork pairCluster)
        pairRound last ∧
      (decide (last.submitted.length < 2 ^ 64) &&
        ((decisionsOf (last.replicas firstNode).log).any fun d => d.request.blockHeight == 2) &&
        (decisionsOf (last.replicas secondNode).log).any fun d =>
          d.request.blockHeight == 2) = true :=
    run_reaching (fun _ event => isGenuine event)
      (fun last : Network => decide (last.submitted.length < 2 ^ 64) &&
        ((decisionsOf (last.replicas firstNode).log).any fun d => d.request.blockHeight == 2) &&
        (decisionsOf (last.replicas secondNode).log).any fun d => d.request.blockHeight == 2)
      (fun _ _ => genuine_of_test) (by decide +kernel)
  simp only [Bool.and_eq_true, decide_eq_true_eq, List.any_eq_true, beq_iff_eq] at passed
  obtain ⟨⟨few, left, leftInside, leftHeight⟩, right, rightInside, rightHeight⟩ := passed
  have leftDecided := mem_decisions_of.mp leftInside
  have rightDecided := mem_decisions_of.mp rightInside
  have agree := correct_nodes_agree pairCluster (by decide) pairRound last run few firstNode
    secondNode (by decide) (by decide) left right leftDecided rightDecided
    (leftHeight.trans rightHeight.symm)
  exact ⟨last, left, right, run, leftDecided, rightDecided, leftHeight, rightHeight, agree.2⟩

end TwoNodes

end PbftBlock.CorrectCluster
