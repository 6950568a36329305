import PbftBlock.NetworkContents
import PbftBlock.CommitOncePerHeight

/-!
# Agreement from one book of requests

As long as honest nodes only ever store, under a number's digest, the request
that one book has for this number, and no message names an honest sender that
did not post it, two positive decisions at one height are about one request.
The two commit certificates share an honest voter, and that voter commits to a
height once.
-/

namespace PbftBlock.Agreement

open PbftBlock.ConsensusMessages PbftBlock.ConsensusWorker PbftBlock.ConsensusBasics
open PbftBlock.ConsensusHandlers PbftBlock.HandlerActions PbftBlock.ActionChanges
open PbftBlock.NodeMachine PbftBlock.NodeContents PbftBlock.ConsensusNetwork
open PbftBlock.NetworkContents PbftBlock.CommitOncePerHeight
open PbftBlock.Library.DistinctVotes PbftBlock.Library.GuardedRuns

set_option autoImplicit false

/-- The sender a message names is faulty, or has posted it. -/
def Authentic (cluster : Cluster) (byz : Finset String) (record : String → List Effect)
    (msg : Message) : Prop :=
  messageSender msg ∈ byz ∨
    messageSender msg ∈ membersOf cluster ∧
      .post ⟨msg, messageSender msg⟩ ∈ record (messageSender msg)

/-- The requests stored are those of a book, each under the digest of its
number, and every vote collected is authentic. -/
def bookLaw (cluster : Cluster) (byz : Finset String) (record : String → List Effect)
    (book : UInt64 → Request) : ContentLaw where
  stored digest request := digest = newhashReq request ∧ request = book request.reqID
  slot id preprep := preprep.requestDigest = itoa id.n
  prepare prep := Authentic cluster byz record (.prepare prep)
  commit commit := Authentic cluster byz record (.commit commit)

variable {cluster : Cluster} {byz : Finset String} {record : String → List Effect}
  {book : UInt64 → Request} {quorum : Int}

theorem tracked_digest {v reqID : UInt64} {digest : String}
    (tracked : Tracked (bookLaw cluster byz record book) v reqID digest) :
    digest = itoa reqID := by
  obtain ⟨preprep, slot, _, _, named⟩ := tracked
  rw [← named]
  exact slot

/-- A request stored under the digest a certificate was tracked for is the
book's entry for the number of the certificate. -/
theorem stored_is_entry {v reqID : UInt64} {digest : String} {request : Request}
    (tracked : Tracked (bookLaw cluster byz record book) v reqID digest)
    (stored : (bookLaw cluster byz record book).stored digest request) :
    request.reqID = reqID ∧ request = book reqID := by
  have number : itoa request.reqID = itoa reqID :=
    stored.1.symm.trans (tracked_digest tracked)
  have same := itoa_injective number
  refine ⟨same, ?_⟩
  rw [← same]
  exact stored.2

theorem decision_request {decision : Decision}
    (backed : Backed (bookLaw cluster byz record book) quorum decision) :
    decision.request.reqID = decision.commit.reqID ∧
      decision.request = book decision.commit.reqID :=
  stored_is_entry backed.tracked backed.request

theorem posted_commit_height {id sender : String} {commit : Commit}
    (explained : Explained (bookLaw cluster byz record book) quorum id
      (.post ⟨.commit commit, sender⟩)) :
    sender = id ∧ commit.sender = id ∧
      commit.vr.blockHeight = (book commit.reqID).blockHeight ∧
      commit.vr.blockHash = (book commit.reqID).blockHash := by
  obtain ⟨rfl, named, tracked, request, stored, height, hash⟩ := explained
  obtain ⟨_, entry⟩ := stored_is_entry tracked stored
  rw [← entry]
  exact ⟨rfl, named, height, hash⟩

def CommittedTo (record : String → List Effect) (height : UInt64) (id : String)
    (value : UInt64 × UInt64) : Prop :=
  ∃ commit, .post ⟨.commit commit, id⟩ ∈ record id ∧ commit.vr.blockHeight = height ∧
    (commit.view, commit.reqID) = value

theorem backed_supported
    (explained : ∀ id, Honest cluster byz id → ∀ effect ∈ record id,
      Explained (bookLaw cluster byz record book) quorum id effect)
    (faulty : ∀ id ∈ byz, id ∈ membersOf cluster) {decision : Decision}
    (backed : Backed (bookLaw cluster byz record book) quorum decision) :
    Supported (membersOf cluster).toFinset byz
      (CommittedTo record decision.request.blockHeight) quorum
      (decision.commit.view, decision.commit.reqID) := by
  obtain ⟨votes, distinct, enough, lawful⟩ := backed.votes
  refine ⟨(votes.map Commit.sender).toFinset, ?_, ?_, ?_⟩
  · intro voter member
    obtain ⟨vote, inside, rfl⟩ := List.mem_map.mp (List.mem_toFinset.mp member)
    rw [List.mem_toFinset]
    rcases (lawful vote inside).1 with bad | good
    · exact faulty _ bad
    · exact good.1
  · rw [List.toFinset_card_of_nodup distinct, List.length_map]
    exact enough
  · intro voter member sound
    obtain ⟨vote, inside, rfl⟩ := List.mem_map.mp (List.mem_toFinset.mp member)
    obtain ⟨authentic, view, number⟩ := lawful vote inside
    obtain ⟨peer, posted⟩ := authentic.resolve_left sound
    have height := (posted_commit_height (explained _ ⟨peer, sound⟩ _ posted)).2.2.1
    refine ⟨vote, posted, ?_, by rw [view, number]⟩
    rw [(decision_request backed).2, height, number]

/-- Two backed decisions at one height are about one number and one request. -/
theorem backed_decisions_agree
    (explained : ∀ id, Honest cluster byz id → ∀ effect ∈ record id,
      Explained (bookLaw cluster byz record book) quorum id effect)
    (once : ∀ id, Honest cluster byz id → (committedHeights (record id)).Nodup)
    (faulty : ∀ id ∈ byz, id ∈ membersOf cluster)
    (large : peersnumOf cluster + byz.card < 2 * quorum) {left right : Decision}
    (leftBacked : Backed (bookLaw cluster byz record book) quorum left)
    (rightBacked : Backed (bookLaw cluster byz record book) quorum right)
    (same : left.request.blockHeight = right.request.blockHeight) :
    left.commit.view = right.commit.view ∧ left.commit.reqID = right.commit.reqID ∧
      left.request = right.request := by
  have leftSupport := backed_supported explained faulty leftBacked
  have rightSupport := backed_supported explained faulty rightBacked
  rw [← same] at rightSupport
  have size : ((membersOf cluster).toFinset.card : Int) = peersnumOf cluster := by
    rw [List.toFinset_card_of_nodup (members_nodup cluster)]
    rfl
  have value := supported_unique (by
    intro voter member sound leftValue rightValue leftVote rightVote
    obtain ⟨leftCommit, leftPosted, leftHeight, rfl⟩ := leftVote
    obtain ⟨rightCommit, rightPosted, rightHeight, rfl⟩ := rightVote
    have unique := posted_commit_unique (once voter ⟨List.mem_toFinset.mp member, sound⟩)
      leftPosted rightPosted (leftHeight.trans rightHeight.symm)
    rw [unique]) (by rw [size]; exact large) leftSupport rightSupport
  obtain ⟨view, number⟩ := Prod.mk.inj value
  refine ⟨view, number, ?_⟩
  rw [(decision_request leftBacked).2, (decision_request rightBacked).2, number]

section QuorumSizes

variable {worker : Worker}

theorem two_quorums_overlap (many : 2 ≤ worker.N) : worker.N < 2 * getQuorum worker := by
  unfold getQuorum
  split_ifs <;> omega

theorem two_quorums_overlap_beyond_faults (many : 4 ≤ worker.N) {faults : Int}
    (few : faults ≤ (worker.N - 1) / 3) : worker.N + faults < 2 * getQuorum worker := by
  unfold getQuorum
  split_ifs <;> omega

end QuorumSizes

end PbftBlock.Agreement
