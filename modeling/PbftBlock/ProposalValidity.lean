import PbftBlock.ByzantinePeers

/-!
# What an honest node votes for

The leader test of `RecvPrePrepare` looks at the sender of the embedded
request, which whoever sends the PrePrepare has written. With an honest leader,
and PrePrepares that carry requests the leader has issued, every Prepare,
Commit and insertion of an honest node is for an issued request.
-/

namespace PbftBlock.ProposalValidity

open PbftBlock.ConsensusMessages PbftBlock.ConsensusWorker PbftBlock.HandlerActions
open PbftBlock.NodeMachine PbftBlock.NodeContents PbftBlock.ConsensusNetwork
open PbftBlock.NetworkContents PbftBlock.CommitOncePerHeight PbftBlock.Agreement
open PbftBlock.IssuedRequests PbftBlock.RequestNumbers PbftBlock.ByzantinePeers
open PbftBlock.Library.GuardedRuns

set_option autoImplicit false

/-- A PrePrepare of the only view, if it carries a request, carries one that the leader has
issued. -/
def proposesIssued (cluster : Cluster) (record : String → List Effect) : Message → Prop
  | .prePrepare preprep => preprep.view = 1 → preprep.request ≠ none →
      CarriesIssued cluster record preprep
  | _ => True

structure ProposalGuard (cluster : Cluster) (byz : Finset String) (net : Network)
    (event : NetEvent) : Prop where
  adversarial : Adversarial cluster byz net event
  ownName : Injects (Authentic cluster byz (recordOf net)) event
  proposals : Reaches byz (proposesIssued cluster (recordOf net)) event
  fits : EachCallAt cluster (fun _ worker call => CommitFits worker call) net event

variable {cluster : Cluster} {byz : Finset String} {record : String → List Effect}
  {net : Network} {events : List NetEvent}

theorem carries_issued_grows (leaderHonest : leaderOf cluster ∉ byz)
    (within : Within cluster byz record net) {preprep : PrePrepare}
    (carries : CarriesIssued cluster (recordOf net) preprep) :
    CarriesIssued cluster record preprep := by
  obtain ⟨request, issued, rest⟩ := carries
  exact ⟨request, within _ ⟨leader_member cluster, leaderHonest⟩ _ issued, rest⟩

theorem run_proposals_lawful (leaderHonest : leaderOf cluster ∉ byz)
    (run : Run (netStep cluster) (ProposalGuard cluster byz) (startNetwork cluster) events net) :
    NetLawful cluster byz (proposalWire cluster byz (recordOf net))
      (issuedLaw cluster byz (recordOf net)) net := by
  have injected : ∀ state envelope call msg, ProposalGuard cluster byz state (.inject envelope) →
      Within cluster byz (recordOf net) state → envelope.dest ∉ byz →
      handleMsg envelope.link envelope.info = some call → callMessage call = some msg →
      proposalWire cluster byz (recordOf net) msg := by
    intro state envelope call msg guard within reached handled carried
    have named := reaches_of_injects guard.ownName envelope call msg rfl reached handled carried
    have authentic := authentic_grows within named
    cases msg with
    | prePrepare preprep =>
        intro view carries
        have proposed := guard.proposals envelope call _ rfl reached handled carried view carries
        exact carries_issued_grows leaderHonest within proposed
    | request request => exact authentic
    | prepare prep => exact authentic
    | commit commit => exact authentic
  have governs : Governs cluster byz (ProposalGuard cluster byz) (recordOf net)
      (proposalWire cluster byz (recordOf net)) (issuedLaw cluster byz (recordOf net)) :=
    issued_governs leaderHonest
      (fun _ _ id call guard source => guard.adversarial.asleep id call source) injected
  exact run_net_lawful governs run (fun _ _ _ member => member)

/-- The leader has issued a request with this number and digest. -/
def IssuedAs (cluster : Cluster) (record : String → List Effect) (reqID : UInt64)
    (digest : String) (request : Request) : Prop :=
  Issued cluster record request ∧ request.reqID = reqID ∧ newhashReq request = digest

theorem tracked_issued {v reqID : UInt64} {digest : String}
    (tracked : Tracked (issuedLaw cluster byz record) v reqID digest) :
    ∃ request, IssuedAs cluster record reqID digest request := by
  obtain ⟨preprep, ⟨request, issued, _, number, named⟩, _, _, same⟩ := tracked
  exact ⟨request, issued, number, by rw [← named, same]⟩

theorem stored_issued {v reqID : UInt64} {digest : String} {request : Request}
    (tracked : Tracked (issuedLaw cluster byz record) v reqID digest)
    (stored : (issuedLaw cluster byz record).stored digest request) :
    IssuedAs cluster record reqID digest request := by
  obtain ⟨other, _, number, named⟩ := tracked_issued tracked
  have same : itoa request.reqID = itoa other.reqID := stored.1.symm.trans named.symm
  exact ⟨stored.2, (itoa_injective same).trans number, stored.1.symm⟩

/-- With an honest leader, honest nodes prepare, commit and insert only what the
leader has issued, if every PrePrepare that reaches them carries an issued request
and the Commits that complete a certificate fit. -/
theorem honest_votes_are_for_issued_requests (cluster : Cluster) (byz : Finset String)
    (leaderHonest : leaderOf cluster ∉ byz) (events : List NetEvent) (last : Network)
    (run : Run (netStep cluster) (ProposalGuard cluster byz) (startNetwork cluster) events last)
    (id : String) (honest : Honest cluster byz id) :
    (∀ prep sender, .post ⟨.prepare prep, sender⟩ ∈ (last.replicas id).log →
      ∃ request, IssuedAs cluster (recordOf last) prep.reqID prep.requestDigest request) ∧
      (∀ commit sender, .post ⟨.commit commit, sender⟩ ∈ (last.replicas id).log →
        ∃ request, IssuedAs cluster (recordOf last) commit.reqID commit.requestDigest request ∧
          commit.vr.blockHeight = request.blockHeight ∧
          commit.vr.blockHash = request.blockHash) ∧
      ∀ decision, .insertChain decision ∈ (last.replicas id).log →
        IssuedAs cluster (recordOf last) decision.commit.reqID decision.commit.requestDigest
          decision.request ∧
        decision.block = decision.request.realblock := by
  have history := lawful_history (run_proposals_lawful leaderHonest run) id honest
  refine ⟨?_, ?_, ?_⟩
  · intro prep sender posted
    obtain ⟨_, _, tracked⟩ := history _ posted
    exact tracked_issued tracked
  · intro commit sender posted
    obtain ⟨_, _, tracked, request, stored, height, hash⟩ := history _ posted
    exact ⟨request, stored_issued tracked stored, height, hash⟩
  · intro decision inserted
    have backed : Backed _ _ decision := history _ inserted
    have fitting := run_decisions_fit (fun _ _ guard => guard.fits) run inserted
    exact ⟨stored_issued backed.tracked backed.request, fitting.2⟩

section ForgedProposals

def proposedBy (peer : String) (request : Request) : Message :=
  .prePrepare ⟨peer, 1, request.reqID, newhashReq request, some request⟩

/-- `nodeD` passes an issued request on before `nodeB` has heard of it. -/
def earlyProposal : List NetEvent :=
  [.submit 0 ⟨some (plainBlock 2 0), []⟩,
    directly nodeD nodeB (proposedBy nodeD (leaderRequest nodeA 2 (plainBlock 2 0))),
    .deliver 2 3]

def proposesIssuedTest (net : Network) : Message → Bool
  | .prePrepare preprep => preprep.request.any fun request =>
      decide (.post ⟨.request request, nodeA⟩ ∈ (net.replicas nodeA).log) &&
        preprep.reqID == request.reqID && preprep.requestDigest == newhashReq request
  | _ => true

theorem proposes_issued_of_test {net : Network} {msg : Message}
    (passed : proposesIssuedTest net msg = true) :
    proposesIssued fourCluster (recordOf net) msg := by
  cases msg with
  | prePrepare preprep =>
      simp only [proposesIssuedTest, Option.any_eq_true, Bool.and_eq_true, decide_eq_true_eq,
        beq_iff_eq] at passed
      obtain ⟨request, carried, ⟨issued, number⟩, digest⟩ := passed
      exact fun _ _ => ⟨request, issued, carried, number, digest⟩
  | request request => trivial
  | prepare prep => trivial
  | commit commit => trivial

def proposalGuardTest (net : Network) (event : NetEvent) : Bool :=
  ownNameTest nodeD net event && injectsTest (proposesIssuedTest net) event &&
    checksCalls fourCluster (fun _ worker call => commitFitsTest worker call) net event

theorem proposal_guard_of_test (net : Network) (event : NetEvent)
    (passed : proposalGuardTest net event = true) :
    ProposalGuard fourCluster {nodeD} net event := by
  simp only [proposalGuardTest, Bool.and_eq_true] at passed
  obtain ⟨adversarial, ownName⟩ := own_name_of_test passed.1.1
  exact ⟨adversarial, ownName,
    reaches_of_injects (injects_of_test (fun _ => proposes_issued_of_test) passed.1.2),
    each_call_of_checks (fun _ _ _ => commit_fits_of_test) passed.2⟩

theorem honest_votes_are_for_issued_requests_on_early_proposal :
    ∃ last,
      Run (netStep fourCluster) (ProposalGuard fourCluster {nodeD}) (startNetwork fourCluster)
        earlyProposal last ∧
      .post ⟨.prepare (voteFor nodeB 2 "2"), nodeB⟩ ∈ (last.replicas nodeB).log ∧
      ∃ request, IssuedAs fourCluster (recordOf last) 2 "2" request := by
  obtain ⟨last, run, passed⟩ : ∃ last,
      Run (netStep fourCluster) (ProposalGuard fourCluster {nodeD}) (startNetwork fourCluster)
        earlyProposal last ∧
      decide (.post ⟨.prepare (voteFor nodeB 2 "2"), nodeB⟩ ∈ (last.replicas nodeB).log) = true :=
    run_reaching proposalGuardTest
      (fun last : Network =>
        decide (.post ⟨.prepare (voteFor nodeB 2 "2"), nodeB⟩ ∈ (last.replicas nodeB).log))
      proposal_guard_of_test (by decide +kernel)
  have posted := of_decide_eq_true passed
  have issued := (honest_votes_are_for_issued_requests fourCluster {nodeD} (by decide)
    earlyProposal last run nodeB ⟨by decide, by decide⟩).1 _ _ posted
  exact ⟨last, run, posted, issued⟩

def forgedProposal : List NetEvent :=
  [directly nodeD nodeB (proposedBy nodeD (leaderRequest nodeA 9 (plainBlock 2 0))), .deliver 1 0]

/-- The leader has done nothing at all, and `nodeB` prepares its request 9. -/
theorem honest_node_prepares_forged_request :
    FaultBound fourCluster {nodeD} ∧ leaderOf fourCluster ∉ ({nodeD} : Finset String) ∧
      ∃ last,
        Run (netStep fourCluster)
          (fun net event => Adversarial fourCluster {nodeD} net event ∧
            Injects (Authentic fourCluster {nodeD} (recordOf net)) event)
          (startNetwork fourCluster) forgedProposal last ∧
        .post ⟨.prepare (voteFor nodeB 9 "9"), nodeB⟩ ∈ (last.replicas nodeB).log ∧
        (last.replicas nodeA).log = [] := by
  refine ⟨fault_bound_singleton (by decide), by decide, ?_⟩
  obtain ⟨last, run, passed⟩ : ∃ last,
      Run (netStep fourCluster)
        (fun net event => Adversarial fourCluster {nodeD} net event ∧
          Injects (Authentic fourCluster {nodeD} (recordOf net)) event)
        (startNetwork fourCluster) forgedProposal last ∧
      (decide (.post ⟨.prepare (voteFor nodeB 9 "9"), nodeB⟩ ∈ (last.replicas nodeB).log) &&
        decide ((last.replicas nodeA).log = [])) = true :=
    run_reaching (ownNameTest nodeD)
      (fun last : Network =>
        decide (.post ⟨.prepare (voteFor nodeB 9 "9"), nodeB⟩ ∈ (last.replicas nodeB).log) &&
          decide ((last.replicas nodeA).log = []))
      (fun _ _ => own_name_of_test) (by decide +kernel)
  rw [Bool.and_eq_true, decide_eq_true_eq, decide_eq_true_eq] at passed
  exact ⟨last, run, passed.1, passed.2⟩

end ForgedProposals

end PbftBlock.ProposalValidity
