import PbftBlock.NodeContents
import PbftBlock.CommitOncePerHeight

/-!
# Prepares with one number and two digests

The digest of a PrePrepare is compared with its request only in a branch that
is never reached, so a node can be led to post Prepares for one view and number
under two digests. When every PrePrepare that fills the slot of its certificate
does carry the digest of its request, the digest is a function of the number.
-/

namespace PbftBlock.PrepareDigests

open PbftBlock.ConsensusMessages PbftBlock.ConsensusWorker PbftBlock.ConsensusBasics
open PbftBlock.ConsensusHandlers PbftBlock.HandlerActions PbftBlock.ActionChanges
open PbftBlock.NodeMachine PbftBlock.NodeContents PbftBlock.CommitOncePerHeight
open PbftBlock.Library.GuardedRuns

set_option autoImplicit false

/-- The comparison the source makes too late: a PrePrepare that is about to fill
an empty slot names the digest of the request it carries. -/
def DigestChecked (worker : Worker) (call : Call) : Prop :=
  ∀ preprep request, call = .recvPrePrepare preprep → Admits worker preprep request →
    worker.currentBlock < request.blockHeight →
    (certAt worker ⟨preprep.view, request.reqID⟩).prePrepare = none →
    newhashReq request = preprep.requestDigest

/-- The slot under a key holds the digest of the key's number. -/
def slotDigestLaw : ContentLaw where
  stored _ _ := True
  slot id preprep := preprep.requestDigest = itoa id.n
  prepare _ := True
  commit _ := True

theorem brings_slot_digests {worker : Worker} {call : Call}
    (checked : DigestChecked worker call) (prior : Lawful slotDigestLaw worker) :
    Brings slotDigestLaw worker call where
  stored _ _ _ := trivial
  proposed _ _ _ _ := rfl
  tracked preprep request called tests above free := by
    cases slot : (certAt worker ⟨preprep.view, request.reqID⟩).prePrepare with
    | none => exact (checked preprep request called tests above slot).symm
    | some p => exact (free p slot).symm.trans (prior.slots _ p slot)
  prepare _ _ := trivial
  commit _ _ := trivial

structure PreparesNumbered (worker : Worker) (log : List Effect) : Prop where
  lawful : Lawful slotDigestLaw worker
  posted : ∀ prep sender, .post ⟨.prepare prep, sender⟩ ∈ log → prep.requestDigest = itoa prep.reqID

theorem run_prepares_numbered {nodeID leader : String} {peersnum : Int} {events : List Event}
    {last : Replica}
    (run : Run step (EachCall DigestChecked) (boot nodeID leader peersnum) events last) :
    PreparesNumbered last.worker last.log := by
  refine run_keeps PreparesNumbered ?_ run ⟨start_lawful _ _ _ _, by simp [boot]⟩
  intro now worker log call checked prior
  have brought := brings_slot_digests checked prior.lawful
  refine ⟨run_call_lawful brought prior.lawful, ?_⟩
  intro prep sender member
  rcases List.mem_append.mp member with old | new
  · exact prior.posted prep sender old
  · obtain ⟨_, _, preprep, slot, _, _, digest⟩ := call_explained brought prior.lawful new
    rw [← digest]
    exact slot

/-- If every PrePrepare that fills a slot passes the comparison, no two Prepares of a node share view and number and differ in digest, also across
the removal of certificates. -/
theorem prepares_never_equivocate (nodeID leader : String) (peersnum : Int)
    (events : List Event) (last : Replica)
    (run : Run step (EachCall DigestChecked) (boot nodeID leader peersnum) events last)
    (left right : Prepare) (leftSender rightSender : String)
    (leftPosted : .post ⟨.prepare left, leftSender⟩ ∈ last.log)
    (rightPosted : .post ⟨.prepare right, rightSender⟩ ∈ last.log)
    (same : (left.view, left.reqID) = (right.view, right.reqID)) :
    left.requestDigest = right.requestDigest := by
  have numbered := run_prepares_numbered run
  have sameReqID : left.reqID = right.reqID := congrArg Prod.snd same
  rw [numbered.posted left leftSender leftPosted, numbered.posted right rightSender rightPosted,
    sameReqID]

def prePrepareFor (sender : String) (reqID : UInt64) (digest : String) (request : Request) :
    PrePrepare :=
  ⟨sender, 1, reqID, digest, some request⟩

def commitVote (sender : String) (reqID : UInt64) (digest : String) (height : UInt64)
    (hash : String) : Commit :=
  ⟨sender, 1, reqID, digest, ⟨sender, height, hash, hexToAddress "a", true, sender⟩⟩

/-- Two nodes decide number 5 at height 2, which removes its certificate; then
the leader proposes number 5 again at height 3. -/
def reproposalSchedule : List Event :=
  [.invoke 0 (.recvPrePrepare
      (prePrepareFor "a" 5 "5" (leaderRequest "a" 5 (plainBlock 2 0)))),
    .resume 1 0,
    .invoke 2 (.recvPrepare (voteFor "a" 5 "5")),
    .resume 3 0,
    .invoke 4 (.recvCommit (commitVote "a" 5 "5" 2 "2")),
    .invoke 5 (.recvPrePrepare
      (prePrepareFor "a" 5 "5" (leaderRequest "a" 5 (plainBlock 3 0))))]

def checksDigest (replica : Replica) (event : Event) : Bool :=
  match eventCall replica event with
  | some (.recvPrePrepare preprep) =>
      preprep.request.all fun request => newhashReq request == preprep.requestDigest
  | _ => true

theorem each_call_of_checks_digest (replica : Replica) (event : Event)
    (passed : checksDigest replica event = true) : EachCall DigestChecked replica event := by
  intro call ran preprep request called tests _ _
  subst called
  simpa [checksDigest, ran, tests.carried] using passed

theorem prepares_never_equivocate_on_reproposal :
    ∃ last, Run step (EachCall DigestChecked) (boot "b" "a" 2) reproposalSchedule last ∧
      last.log.count (.post ⟨.prepare (voteFor "b" 5 "5"), "b"⟩) = 2 ∧
      (voteFor "b" 5 "5").requestDigest = (voteFor "b" 5 "5").requestDigest := by
  obtain ⟨last, run, posted⟩ : ∃ last,
      Run step (EachCall DigestChecked) (boot "b" "a" 2) reproposalSchedule last ∧
        (last.log.count (.post ⟨.prepare (voteFor "b" 5 "5"), "b"⟩) == 2) = true :=
    run_reaching checksDigest
      (fun last : Replica => last.log.count (.post ⟨.prepare (voteFor "b" 5 "5"), "b"⟩) == 2)
      each_call_of_checks_digest (by decide +kernel)
  have twice := eq_of_beq posted
  have member : .post ⟨.prepare (voteFor "b" 5 "5"), "b"⟩ ∈ last.log :=
    List.count_pos_iff.mp (by omega)
  exact ⟨last, run, twice,
    prepares_never_equivocate "b" "a" 2 _ last run _ _ "b" "b" member member rfl⟩

/-- A proposal under a made-up digest, the leader's own Request for the same
number, and a proposal that names this number but carries another request. -/
def equivocationSchedule : List Event :=
  [.invoke 0 (.recvPrePrepare
      (prePrepareFor "c" 5 "x" (leaderRequest "a" 5 (plainBlock 2 0)))),
    .invoke 1 (.recvRequest (leaderRequest "a" 5 (plainBlock 2 0))),
    .invoke 2 (.recvPrePrepare
      (prePrepareFor "c" 5 "5" (leaderRequest "a" 6 (plainBlock 2 0))))]

theorem node_posts_equivocating_prepares :
    ∃ last, Run step (fun _ _ => True) (boot "b" "a" 4) equivocationSchedule last ∧
      .post ⟨.prepare (voteFor "b" 5 "x"), "b"⟩ ∈ last.log ∧
      .post ⟨.prepare (voteFor "b" 5 "5"), "b"⟩ ∈ last.log ∧
      (voteFor "b" 5 "x").requestDigest ≠ (voteFor "b" 5 "5").requestDigest := by
  obtain ⟨last, run, posted⟩ : ∃ last,
      Run step (fun _ _ => True) (boot "b" "a" 4) equivocationSchedule last ∧
        decide (.post ⟨.prepare (voteFor "b" 5 "x"), "b"⟩ ∈ last.log ∧
          .post ⟨.prepare (voteFor "b" 5 "5"), "b"⟩ ∈ last.log) = true :=
    run_reaching (fun _ _ => true)
      (fun last : Replica => decide (.post ⟨.prepare (voteFor "b" 5 "x"), "b"⟩ ∈ last.log ∧
        .post ⟨.prepare (voteFor "b" 5 "5"), "b"⟩ ∈ last.log))
      (fun _ _ _ => trivial) (by decide +kernel)
  obtain ⟨leftPosted, rightPosted⟩ := of_decide_eq_true posted
  exact ⟨last, run, leftPosted, rightPosted, by decide⟩

end PbftBlock.PrepareDigests
