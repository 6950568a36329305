import PbftBlock.ByzantineAgreement
import PbftBlock.ChainHead

/-!
# Who stands behind the votes that are counted

The senders that `prepared` and `committed` count are those named inside the
messages; the signature that `handleMsg` checks is that of the link. If no vote that
gets through to an honest node names one that has not sent it, every counted vote is genuine,
and a single Byzantine peer cannot move the head of a node on its own.
-/

namespace PbftBlock.VoteAuthenticity

open PbftBlock.ConsensusMessages PbftBlock.ConsensusWorker PbftBlock.ConsensusBasics
open PbftBlock.NodeMachine PbftBlock.NodeContents PbftBlock.ConsensusNetwork
open PbftBlock.NetworkContents PbftBlock.CommitOncePerHeight PbftBlock.Agreement
open PbftBlock.RequestNumbers PbftBlock.ChainHead PbftBlock.ByzantinePeers
open PbftBlock.ByzantineAgreement
open PbftBlock.Library.GuardedRuns

set_option autoImplicit false

/-- Votes are authentic; requests and PrePrepares are arbitrary. -/
def castLaw (cluster : Cluster) (byz : Finset String) (record : String → List Effect) :
    ContentLaw where
  stored _ _ := True
  slot _ _ := True
  prepare prep := Authentic cluster byz record (.prepare prep)
  commit commit := Authentic cluster byz record (.commit commit)

structure VoteGuard (cluster : Cluster) (byz : Finset String) (net : Network)
    (event : NetEvent) : Prop where
  adversarial : Adversarial cluster byz net event
  genuineVotes : Reaches byz (voteWire cluster byz (recordOf net)) event

variable {cluster : Cluster} {byz : Finset String} {net : Network} {events : List NetEvent}

theorem run_votes_lawful
    (run : Run (netStep cluster) (VoteGuard cluster byz) (startNetwork cluster) events net) :
    NetLawful cluster byz (voteWire cluster byz (recordOf net))
      (castLaw cluster byz (recordOf net)) net := by
  have governs : Governs cluster byz (VoteGuard cluster byz) (recordOf net)
      (voteWire cluster byz (recordOf net)) (castLaw cluster byz (recordOf net)) := by
    apply votes_govern (fun _ => Iff.rfl) (fun _ => Iff.rfl)
    · intro state event id call guard source
      exact guard.adversarial.asleep id call source
    · intro state event guard
      exact guard.genuineVotes
    · intro state event id call _ _
      exact ⟨fun _ _ _ => trivial, fun _ _ _ _ => trivial, fun _ _ _ _ => trivial⟩
  exact run_net_lawful governs run (fun _ _ _ member => member)

/-- The sender a message names is a member and, if honest, has posted it. -/
def Sent (cluster : Cluster) (byz : Finset String) (net : Network) (msg : Message)
    (sender : String) : Prop :=
  sender ∈ membersOf cluster ∧
    (sender ∉ byz → .post ⟨msg, sender⟩ ∈ (net.replicas sender).log)

theorem sent_of_authentic (members : ∀ id ∈ byz, id ∈ membersOf cluster) {msg : Message}
    (authentic : Authentic cluster byz (recordOf net) msg) :
    Sent cluster byz net msg (HandlerActions.messageSender msg) := by
  rcases authentic with faulty | ⟨peer, posted⟩
  · exact ⟨members _ faulty, fun honest => absurd faulty honest⟩
  · exact ⟨peer, fun _ => posted⟩

theorem run_head_or_decision {allowed : Network → NetEvent → Prop}
    (run : Run (netStep cluster) allowed (startNetwork cluster) events net) (id : String) :
    (net.replicas id).worker.currentBlock = 1 ∨
      ∃ decision, .insertChain decision ∈ (net.replicas id).log := by
  refine run_invariant (fun state => (state.replicas id).worker.currentBlock = 1 ∨
    ∃ decision, .insertChain decision ∈ (state.replicas id).log) ?_ run (.inl rfl)
  intro state event after _ stepped prior
  rcases step_head stepped id with kept | ⟨decision, effects, grown, inserted, _⟩
  · rcases prior with initial | ⟨decision, inside⟩
    · exact .inl (kept.trans initial)
    · exact .inr ⟨decision, step_log_grows stepped id _ inside⟩
  · right
    refine ⟨decision, ?_⟩
    rw [grown]
    exact List.mem_append_right _ inserted

theorem quorum_exceeds_single_fault (bound : FaultBound cluster byz) (single : byz.card ≤ 1) :
    (byz.card : Int) + 1 < quorumOf cluster := by
  have few := bound.few
  have size : (bootOf cluster (leaderOf cluster)).worker.N = peersnumOf cluster := rfl
  unfold quorumOf getQuorum
  rw [size]
  split_ifs <;> omega

theorem silent_quorum_impossible (bound : FaultBound cluster byz) (single : byz.card ≤ 1)
    {id : String}
    (silent : ∀ other ∈ membersOf cluster, other ∉ byz → other ≠ id →
      (net.replicas other).log = [])
    {decision : Decision}
    (backed : Backed (castLaw cluster byz (recordOf net)) (quorumOf cluster) decision) : False := by
  obtain ⟨votes, distinct, enough, lawful⟩ := backed.votes
  have voters : (votes.map Commit.sender).toFinset ⊆ insert id byz := by
    intro voter member
    obtain ⟨vote, inside, rfl⟩ := List.mem_map.mp (List.mem_toFinset.mp member)
    by_contra outside
    rw [Finset.mem_insert, not_or] at outside
    obtain ⟨peer, posted⟩ := (lawful vote inside).1.resolve_left outside.2
    have history : recordOf net vote.sender = [] := silent vote.sender peer outside.2 outside.1
    rw [HandlerActions.messageSender, history] at posted
    cases posted
  have count := Finset.card_le_card voters
  rw [List.toFinset_card_of_nodup distinct, List.length_map] at count
  have small := Finset.card_insert_le id byz
  have large := quorum_exceeds_single_fault bound single
  omega

/-- If in the votes that honest nodes handle Byzantine peers only name themselves, or
pass on what was sent, then at every honest node the votes counted by `prepared` and `committed` come from
members, those of honest members were sent by them, and a single Byzantine peer
with all others silent does not move the head. -/
theorem counted_votes_were_sent (cluster : Cluster) (byz : Finset String)
    (bound : FaultBound cluster byz) (events : List NetEvent) (last : Network)
    (run : Run (netStep cluster) (VoteGuard cluster byz) (startNetwork cluster) events last)
    (id : String) (honest : Honest cluster byz id) :
    (∀ digest v n, prepared (last.replicas id).worker digest v n = true →
      ∀ prep ∈ (certAt (last.replicas id).worker ⟨v, n⟩).prepare,
        matchesPrepare digest v n prep = true →
        Sent cluster byz last (.prepare prep) prep.sender) ∧
      (∀ digest v n, committed (last.replicas id).worker digest v n = true →
        ∀ commit ∈ committedVotes (certAt (last.replicas id).worker ⟨v, n⟩) v n,
          Sent cluster byz last (.commit commit) commit.sender) ∧
      (byz.card ≤ 1 →
        (∀ other ∈ membersOf cluster, other ∉ byz → other ≠ id →
          (last.replicas other).log = []) →
        (last.replicas id).worker.currentBlock = 1) := by
  have lawful := run_votes_lawful run
  have held := lawful.held id honest
  refine ⟨?_, ?_, ?_⟩
  · intro digest v n _ prep member _
    exact sent_of_authentic bound.members (held.prepares _ prep member).1
  · intro digest v n _ commit member
    have inside := (mem_committed_votes member).1
    exact sent_of_authentic bound.members (held.commits _ commit inside).1
  · intro single silent
    rcases run_head_or_decision run id with initial | ⟨decision, decided⟩
    · exact initial
    · have backed := lawful_history lawful id honest _ decided
      exact (silent_quorum_impossible bound single silent backed).elim

section ForgedVotes

/-- The leader `nodeA` is Byzantine. It sends its request to `nodeB`, and then
votes under the given names, one Prepare and one Commit for each. -/
def votesUnder (left right : String) : List NetEvent :=
  let prep := fun name : String => Message.prepare (voteFor name 5 "5")
  let commit := fun name : String =>
    Message.commit ⟨name, 1, 5, "5", ⟨name, 2, "2", hexToAddress name, true, name⟩⟩
  [directly nodeA nodeB (.request plainRequest), .deliver 1 0,
    .resume 2 nodeB 0, .resume 3 nodeB 0, directly nodeA nodeB (prep left), .deliver 5 6,
    directly nodeA nodeB (prep right), .deliver 7 9, .resume 8 nodeB 0,
    directly nodeA nodeB (commit left), .deliver 10 15, directly nodeA nodeB (commit right),
    .deliver 12 18]

/-- `nodeB` gets the Prepare of `nodeD` and one of the Byzantine leader. -/
def genuinePrepares : List NetEvent := (splitSchedule plainRequest plainRequest).take 12

def voteGuardTest (net : Network) (event : NetEvent) : Bool :=
  isAdversarial fourCluster {nodeA} net event &&
    injectsTest (fun msg => decide (voteWire fourCluster {nodeA} (recordOf net) msg)) event

theorem vote_guard_of_test (net : Network) (event : NetEvent)
    (passed : voteGuardTest net event = true) : VoteGuard fourCluster {nodeA} net event := by
  rw [voteGuardTest, Bool.and_eq_true] at passed
  exact ⟨adversarial_of_test passed.1,
    reaches_of_injects (injects_of_test (fun _ => of_decide_eq_true) passed.2)⟩

/-- `nodeB` is prepared for request 5 and has a Prepare of `name` for it. -/
def preparedWith (name : String) (last : Network) : Bool :=
  prepared (last.replicas nodeB).worker "5" 1 5 &&
    decide (voteFor name 5 "5" ∈ (certAt (last.replicas nodeB).worker ⟨1, 5⟩).prepare)

theorem counted_votes_were_sent_on_genuine_prepares :
    ∃ last,
      Run (netStep fourCluster) (VoteGuard fourCluster {nodeA}) (startNetwork fourCluster)
        genuinePrepares last ∧
      prepared (last.replicas nodeB).worker "5" 1 5 = true ∧
      voteFor nodeD 5 "5" ∈ (certAt (last.replicas nodeB).worker ⟨1, 5⟩).prepare ∧
      Sent fourCluster {nodeA} last (.prepare (voteFor nodeD 5 "5")) nodeD := by
  obtain ⟨last, run, passed⟩ : ∃ last,
      Run (netStep fourCluster) (VoteGuard fourCluster {nodeA}) (startNetwork fourCluster)
        genuinePrepares last ∧ preparedWith nodeD last = true :=
    run_reaching voteGuardTest (preparedWith nodeD) vote_guard_of_test (by decide +kernel)
  simp only [preparedWith, Bool.and_eq_true, decide_eq_true_eq] at passed
  have sent := (counted_votes_were_sent fourCluster {nodeA} (fault_bound_singleton (by decide))
    genuinePrepares last run nodeB ⟨by decide, by decide⟩).1 "5" 1 5 passed.1 _ passed.2
    (by decide +kernel)
  exact ⟨last, run, passed.1, passed.2, sent⟩

/-- With votes under the names of `nodeC` and `nodeD`, which do nothing at all,
the Byzantine leader makes `nodeB` prepared, and then moves its head. -/
theorem forged_votes_are_counted :
    FaultBound fourCluster {nodeA} ∧
      (∃ middle,
        Run (netStep fourCluster) (Adversarial fourCluster {nodeA}) (startNetwork fourCluster)
          ((votesUnder nodeC nodeD).take 8) middle ∧
        prepared (middle.replicas nodeB).worker "5" 1 5 = true ∧
        voteFor nodeC 5 "5" ∈ (certAt (middle.replicas nodeB).worker ⟨1, 5⟩).prepare ∧
        (middle.replicas nodeC).log = []) ∧
      ∃ last,
        Run (netStep fourCluster) (Adversarial fourCluster {nodeA}) (startNetwork fourCluster)
          (votesUnder nodeC nodeD) last ∧
        (last.replicas nodeB).worker.currentBlock = 2 ∧
        (last.replicas nodeC).log = [] ∧ (last.replicas nodeD).log = [] := by
  refine ⟨fault_bound_singleton (by decide), ?_, ?_⟩
  · obtain ⟨middle, run, passed⟩ : ∃ middle,
        Run (netStep fourCluster) (Adversarial fourCluster {nodeA}) (startNetwork fourCluster)
          ((votesUnder nodeC nodeD).take 8) middle ∧
        (preparedWith nodeC middle && decide ((middle.replicas nodeC).log = [])) = true :=
      run_reaching (isAdversarial fourCluster {nodeA})
        (fun middle : Network =>
          preparedWith nodeC middle && decide ((middle.replicas nodeC).log = []))
        (fun _ _ => adversarial_of_test) (by decide +kernel)
    simp only [preparedWith, Bool.and_eq_true, decide_eq_true_eq] at passed
    exact ⟨middle, run, passed.1.1, passed.1.2, passed.2⟩
  · obtain ⟨last, run, passed⟩ : ∃ last,
        Run (netStep fourCluster) (Adversarial fourCluster {nodeA}) (startNetwork fourCluster)
          (votesUnder nodeC nodeD) last ∧
        ((last.replicas nodeB).worker.currentBlock == 2 &&
          decide ((last.replicas nodeC).log = []) &&
          decide ((last.replicas nodeD).log = [])) = true :=
      run_reaching (isAdversarial fourCluster {nodeA})
        (fun last : Network => (last.replicas nodeB).worker.currentBlock == 2 &&
          decide ((last.replicas nodeC).log = []) && decide ((last.replicas nodeD).log = []))
        (fun _ _ => adversarial_of_test) (by decide +kernel)
    simp only [Bool.and_eq_true, beq_iff_eq, decide_eq_true_eq] at passed
    exact ⟨last, run, passed.1.1, passed.1.2, passed.2⟩

end ForgedVotes

end PbftBlock.VoteAuthenticity
