import PbftBlock.ByzantinePeers

/-!
# Agreement with a faulty leader

The digest of a request is its number and the hash of a block is its height, so
a faulty leader can give different nodes different requests under one digest,
and the votes cannot tell them apart. Where the honest nodes do accept one
request per number, the selected blocks agree.
-/

namespace PbftBlock.ByzantineAgreement

open PbftBlock.ConsensusMessages PbftBlock.ConsensusWorker PbftBlock.ConsensusBasics
open PbftBlock.HandlerActions PbftBlock.ActionChanges PbftBlock.NodeMachine
open PbftBlock.NodeContents PbftBlock.ConsensusNetwork PbftBlock.NetworkContents
open PbftBlock.CommitOncePerHeight PbftBlock.Agreement PbftBlock.RequestNumbers
open PbftBlock.CorrectCluster PbftBlock.ByzantinePeers
open PbftBlock.Library.GuardedRuns

set_option autoImplicit false

/-- The request a call gets accepted is the book's entry for its number, and a
PrePrepare carries the digest of its request. -/
structure RequestsBound (book : UInt64 → Request) (worker : Worker) (call : Call) : Prop where
  accepted : ∀ request, call = .recvRequest request → Accepts worker request →
    request = book request.reqID
  admitted : ∀ preprep request, call = .recvPrePrepare preprep → Admits worker preprep request →
    request = book request.reqID ∧ preprep.requestDigest = newhashReq request

structure BindingGuard (cluster : Cluster) (byz : Finset String) (book : UInt64 → Request)
    (net : Network) (event : NetEvent) : Prop where
  adversarial : Adversarial cluster byz net event
  ownName : Injects (Authentic cluster byz (recordOf net)) event
  bound : EachCallAt cluster (fun _ worker call => RequestsBound book worker call) net event
  fits : EachCallAt cluster (fun _ worker call => CommitFits worker call) net event

variable {cluster : Cluster} {byz : Finset String} {record : String → List Effect}
  {book : UInt64 → Request}

theorem vote_wire_of_authentic {msg : Message} (authentic : Authentic cluster byz record msg) :
    voteWire cluster byz record msg := by
  cases msg with
  | request request => trivial
  | prePrepare preprep => trivial
  | prepare prep => exact authentic
  | commit commit => exact authentic

theorem binding_governs :
    Governs cluster byz (BindingGuard cluster byz book) record (voteWire cluster byz record)
      (bookLaw cluster byz record book) := by
  apply votes_govern (fun _ => Iff.rfl) (fun _ => Iff.rfl)
  · intro state event id call guard source
    exact guard.adversarial.asleep id call source
  · intro state event guard
    apply reaches_of_injects
    intro envelope msg put carried
    exact vote_wire_of_authentic (guard.ownName envelope msg put carried)
  · intro state event id call guard source
    have bound := guard.bound id call source
    refine ⟨?_, fun request maker _ _ => rfl, ?_⟩
    · intro digest request stores
      cases stores with
      | accepted _ tests => exact ⟨rfl, bound.accepted request rfl tests⟩
      | carried preprep _ tests fresh =>
          obtain ⟨entry, digest⟩ := bound.admitted preprep request rfl tests
          exact ⟨digest, entry⟩
    · intro preprep request called tests
      exact (bound.admitted preprep request called tests).2

/-- Two honest nodes that decide at one height select the same block, when the
honest nodes accept one request per number and handle fitting Commits. -/
theorem honest_nodes_select_one_block (cluster : Cluster) (byz : Finset String)
    (book : UInt64 → Request) (many : 4 ≤ peersnumOf cluster) (bound : FaultBound cluster byz)
    (events : List NetEvent) (last : Network)
    (run : Run (netStep cluster) (BindingGuard cluster byz book) (startNetwork cluster) events last)
    (leftNode rightNode : String) (leftHonest : Honest cluster byz leftNode)
    (rightHonest : Honest cluster byz rightNode) (left right : Decision)
    (leftDecided : .insertChain left ∈ (last.replicas leftNode).log)
    (rightDecided : .insertChain right ∈ (last.replicas rightNode).log)
    (same : left.commit.vr.blockHeight = right.commit.vr.blockHeight) :
    left.block = right.block := by
  have lawful : NetLawful cluster byz (voteWire cluster byz (recordOf last))
      (bookLaw cluster byz (recordOf last) book) last :=
    run_net_lawful binding_governs run (fun _ _ _ member => member)
  have history := lawful_history lawful
  have fits : ∀ state event, BindingGuard cluster byz book state event →
      EachCallAt cluster (fun _ worker call => CommitFits worker call) state event :=
    fun _ _ guard => guard.fits
  obtain ⟨leftHeight, leftBlock⟩ := run_decisions_fit fits run leftDecided
  obtain ⟨rightHeight, rightBlock⟩ := run_decisions_fit fits run rightDecided
  have sameHeight : left.request.blockHeight = right.request.blockHeight := by
    rw [← leftHeight, same, rightHeight]
  have large : peersnumOf cluster + byz.card < 2 * quorumOf cluster :=
    two_quorums_overlap_beyond_faults many bound.few
  have agree := backed_decisions_agree history (fun id _ => run_commits_once run id)
    bound.members large (history leftNode leftHonest _ leftDecided)
    (history rightNode rightHonest _ rightDecided) sameHeight
  rw [leftBlock, rightBlock, agree.2.2]

section Equivocation

/-- The faulty leader `nodeA` sends one request to `nodeB` and one to `nodeD`,
both with number 5 and for height 2, and votes with either. -/
def splitSchedule (left right : Request) : List NetEvent :=
  let prep : Message := .prepare (voteFor nodeA 5 "5")
  let commit : Message :=
    .commit ⟨nodeA, 1, 5, "5", ⟨nodeA, 2, "2", hexToAddress nodeA, true, nodeA⟩⟩
  [directly nodeA nodeB (.request left), .deliver 1 0, .resume 2 nodeB 0, .resume 3 nodeB 0,
    directly nodeA nodeD (.request right), .deliver 5 6, .resume 6 nodeD 0, .resume 7 nodeD 0,
    .deliver 8 10, .deliver 9 5, directly nodeA nodeB prep, .deliver 11 16,
    directly nodeA nodeD prep, .deliver 13 22, .resume 14 nodeB 0, .resume 15 nodeD 0,
    .deliver 16 23, .deliver 17 18, directly nodeA nodeB commit, .deliver 19 32,
    directly nodeA nodeD commit, .deliver 21 38]

def plainRequest : Request := leaderRequest nodeA 5 (plainBlock 2 0)

def otherRequest : Request :=
  leaderRequest nodeA 5 { plainBlock 2 0 with txs := [some ⟨"other"⟩] }

def requestsBoundTest : Call → Bool
  | .recvRequest request => decide (request = plainRequest)
  | .recvPrePrepare preprep =>
      decide (preprep.request = some plainRequest) &&
        preprep.requestDigest == newhashReq plainRequest
  | _ => true

theorem requests_bound_of_test {worker : Worker} {call : Call}
    (passed : requestsBoundTest call = true) :
    RequestsBound (fun _ => plainRequest) worker call := by
  constructor
  · intro request called _
    subst called
    exact of_decide_eq_true passed
  · intro preprep request called tests
    subst called
    simp only [requestsBoundTest, tests.carried, Option.some.injEq, Bool.and_eq_true,
      decide_eq_true_eq, beq_iff_eq] at passed
    exact ⟨passed.1, by rw [passed.2, passed.1]⟩

def bindingTest (net : Network) (event : NetEvent) : Bool :=
  ownNameTest nodeA net event &&
    checksCalls fourCluster (fun _ _ call => requestsBoundTest call) net event &&
    checksCalls fourCluster (fun _ worker call => commitFitsTest worker call) net event

theorem binding_of_test (net : Network) (event : NetEvent) (passed : bindingTest net event = true) :
    BindingGuard fourCluster {nodeA} (fun _ => plainRequest) net event := by
  simp only [bindingTest, Bool.and_eq_true] at passed
  obtain ⟨adversarial, ownName⟩ := own_name_of_test passed.1.1
  exact ⟨adversarial, ownName,
    each_call_of_checks (fun _ _ _ => requests_bound_of_test) passed.1.2,
    each_call_of_checks (fun _ _ _ => commit_fits_of_test) passed.2⟩

def bothDecide (last : Network) : Bool :=
  ((decisionsOf (last.replicas nodeB).log).any fun d => d.commit.vr.blockHeight == 2) &&
    (decisionsOf (last.replicas nodeD).log).any fun d => d.commit.vr.blockHeight == 2

theorem honest_nodes_select_one_block_when_leader_is_consistent :
    ∃ last left right,
      Run (netStep fourCluster) (BindingGuard fourCluster {nodeA} fun _ => plainRequest)
        (startNetwork fourCluster) (splitSchedule plainRequest plainRequest) last ∧
      .insertChain left ∈ (last.replicas nodeB).log ∧
      .insertChain right ∈ (last.replicas nodeD).log ∧
      left.commit.vr.blockHeight = 2 ∧ right.commit.vr.blockHeight = 2 ∧
      left.block = right.block := by
  obtain ⟨last, run, passed⟩ : ∃ last,
      Run (netStep fourCluster) (BindingGuard fourCluster {nodeA} fun _ => plainRequest)
        (startNetwork fourCluster) (splitSchedule plainRequest plainRequest) last ∧
      bothDecide last = true :=
    run_reaching bindingTest bothDecide binding_of_test (by decide +kernel)
  simp only [bothDecide, Bool.and_eq_true, List.any_eq_true, beq_iff_eq] at passed
  obtain ⟨⟨left, leftInside, leftHeight⟩, right, rightInside, rightHeight⟩ := passed
  have leftDecided := mem_decisions_of.mp leftInside
  have rightDecided := mem_decisions_of.mp rightInside
  have agree := honest_nodes_select_one_block fourCluster {nodeA} (fun _ => plainRequest)
    (by decide) (fault_bound_singleton (by decide)) _ last run nodeB nodeD
    ⟨by decide, by decide⟩ ⟨by decide, by decide⟩ left right leftDecided rightDecided
    (leftHeight.trans rightHeight.symm)
  exact ⟨last, left, right, run, leftDecided, rightDecided, leftHeight, rightHeight, agree⟩

def splitDecision (request : Request) : Decision :=
  ⟨⟨nodeA, 1, 5, "5", ⟨nodeA, 2, "2", hexToAddress nodeA, true, nodeA⟩⟩, request,
    request.realblock⟩

theorem honest_nodes_select_different_blocks :
    ∃ last left right, FaultBound fourCluster {nodeA} ∧
      Run (netStep fourCluster)
        (fun net event => Adversarial fourCluster {nodeA} net event ∧
          Injects (Authentic fourCluster {nodeA} (recordOf net)) event)
        (startNetwork fourCluster) (splitSchedule plainRequest otherRequest) last ∧
      decisionsOf (last.replicas nodeB).log = [left] ∧
      decisionsOf (last.replicas nodeD).log = [right] ∧
      left.commit.vr.blockHeight = 2 ∧ right.commit.vr.blockHeight = 2 ∧
      left.block = some (plainBlock 2 0) ∧
      right.block = some { plainBlock 2 0 with txs := [some ⟨"other"⟩] } := by
  obtain ⟨last, run, passed⟩ : ∃ last,
      Run (netStep fourCluster)
        (fun net event => Adversarial fourCluster {nodeA} net event ∧
          Injects (Authentic fourCluster {nodeA} (recordOf net)) event)
        (startNetwork fourCluster) (splitSchedule plainRequest otherRequest) last ∧
      decide (decisionsOf (last.replicas nodeB).log = [splitDecision plainRequest] ∧
        decisionsOf (last.replicas nodeD).log = [splitDecision otherRequest]) = true :=
    run_reaching (ownNameTest nodeA)
      (fun last : Network =>
        decide (decisionsOf (last.replicas nodeB).log = [splitDecision plainRequest] ∧
          decisionsOf (last.replicas nodeD).log = [splitDecision otherRequest]))
      (fun _ _ => own_name_of_test) (by decide +kernel)
  obtain ⟨leftLog, rightLog⟩ := of_decide_eq_true passed
  exact ⟨last, _, _, fault_bound_singleton (by decide), run, leftLog, rightLog, rfl, rfl, rfl, rfl⟩

end Equivocation

end PbftBlock.ByzantineAgreement
