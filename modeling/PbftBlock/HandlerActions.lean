import PbftBlock.ConsensusHandlers
import PbftBlock.Library.GuardedRuns

/-!
# What a handler call can do

Every exit of every handler is a chain of the actions below. An action carries
the tests the source has made by then: those on the incoming message are stated
of `first`, the worker at the start of the call, and those on the consensus
state of the worker at that moment. Two branches of the source turn out to be
unreachable on the way: the digest comparison of `RecvPrePrepare`, and the
second look at `commitStore` in the two Prepare handlers.
-/

namespace PbftBlock.HandlerActions

open PbftBlock.ConsensusMessages PbftBlock.ConsensusWorker PbftBlock.ConsensusBasics
open PbftBlock.ConsensusHandlers
open PbftBlock.Library.FiniteMaps PbftBlock.Library.GuardedRuns

set_option autoImplicit false

structure Accepts (worker : Worker) (request : Request) : Prop where
  ready : worker.ready = true
  leader : request.sender = worker.leader
  view : worker.view ≤ request.view
  fresh : worker.reqStore.lookup (newhashReq request) = none
  above : worker.currentBlock < request.blockHeight

/-- The tests of `RecvPrePrepare` up to its first store. The leader is looked
at only when the digest is unknown, and it is the request's sender. -/
structure Admits (worker : Worker) (preprep : PrePrepare) (request : Request) : Prop where
  carried : preprep.request = some request
  current : inV worker preprep.view = true
  ready : worker.ready = true
  sound : (worker.reqStore.lookup preprep.requestDigest).isSome = true ∨
    (request.sender = worker.leader ∧ worker.view ≤ request.view)

theorem admits_view {worker : Worker} {preprep : PrePrepare} {request : Request}
    (admitted : Admits worker preprep request) : preprep.view = worker.view :=
  (eq_of_beq admitted.current).symm

/-- The slot of a PrePrepare is empty or names its digest: another one stays as it is. -/
def SlotFree (worker : Worker) (preprep : PrePrepare) (request : Request) : Prop :=
  ∀ p, (certAt worker ⟨preprep.view, request.reqID⟩).prePrepare = some p →
    p.requestDigest = preprep.requestDigest

/-- The tests of both handlers of Prepares in front of the append. -/
structure TakesPrepare (worker : Worker) (prep : Prepare) (request : Request) : Prop where
  current : inV worker prep.view = true
  held : worker.reqStore.lookup prep.requestDigest = some request
  above : worker.currentBlock < request.blockHeight
  unsent : worker.commitStore.lookup request.blockHeight = none

def withCommit (worker : Worker) (commit : Commit) : Worker :=
  addCommit (getCert worker commit.view commit.reqID) commit

/-- The Commit is above the head and completes a certificate with a positive verdict. -/
structure Completes (worker : Worker) (commit : Commit) : Prop where
  above : worker.currentBlock < commit.vr.blockHeight
  reached : committed (withCommit worker commit) commit.requestDigest commit.view
    commit.reqID = true
  verdict : getValidResFromCommit (withCommit worker commit)
    (certAt (withCommit worker commit) ⟨commit.view, commit.reqID⟩) = .possitive

def callMessage : Call → Option Message
  | .recvRequest request => some (.request request)
  | .recvPrePrepare preprep => some (.prePrepare preprep)
  | .recvPrepare prep => some (.prepare prep)
  | .recvPrepareNotTransfer prep => some (.prepare prep)
  | .recvCommit commit => some (.commit commit)
  | .sendRequest _ => none
  | .recvCheckpoint _ => none

def messageSender : Message → String
  | .request request => request.sender
  | .prePrepare preprep => preprep.sender
  | .prepare prep => prep.sender
  | .commit commit => commit.sender

def callRequest : Call → Option Request
  | .recvRequest request => some request
  | .recvPrePrepare preprep => preprep.request
  | _ => none

inductive Action (now : Instant) (first : Worker) : Call → Worker → List Effect → Worker → Prop where
  | advance (raaaa : Raaaa) (worker : Worker) :
      Action now first (.sendRequest raaaa) worker []
        { worker with lastReqID := worker.lastReqID + 1 }
  | issue (raaaa : Raaaa) (worker : Worker) (block : Block)
      (given : raaaa.block = some block) (above : worker.currentBlock < block.number) :
      Action now first (.sendRequest raaaa) worker
        [.spawn (.recvRequest (issuedRequest worker block raaaa.blockbyte)),
          .post ⟨.request (issuedRequest worker block raaaa.blockbyte), worker.nodeID⟩] worker
  | raiseForRequest (request : Request) (worker : Worker) :
      Action now first (.recvRequest request) worker [] (raiseLastReqID worker request.reqID)
  | raiseForPrePrepare (preprep : PrePrepare) (request : Request) (worker : Worker)
      (admitted : Admits first preprep request)
      (fresh : first.reqStore.lookup preprep.requestDigest = none) :
      Action now first (.recvPrePrepare preprep) worker [] (raiseLastReqID worker preprep.reqID)
  | storeRequest (request : Request) (worker : Worker) (accepted : Accepts first request) :
      Action now first (.recvRequest request) worker []
        (storeRequest worker (newhashReq request) request)
  | storeCarried (preprep : PrePrepare) (request : Request) (worker : Worker)
      (admitted : Admits first preprep request)
      (fresh : first.reqStore.lookup preprep.requestDigest = none) :
      Action now first (.recvPrePrepare preprep) worker []
        (storeRequest worker preprep.requestDigest request)
  | pool (call : Call) (request : Request) (block : Block) (worker : Worker)
      (brought : callRequest call = some request) (carried : request.realblock = some block) :
      Action now first call worker [] (putPVBAndBeats now worker block)
  | propose (request : Request) (worker : Worker) (accepted : Accepts first request)
      (current : inV worker request.view = true)
      (held : worker.reqStore.lookup (newhashReq request) = some request) :
      Action now first (.recvRequest request) worker
        [.spawn (.recvPrePrepare (proposal worker request)),
          .post ⟨.prePrepare (proposal worker request), worker.nodeID⟩]
        (putPrePrepareInCert worker request.view request.reqID (proposal worker request))
  | openCert (call : Call) (id : MsgID) (worker : Worker) :
      Action now first call worker [] (getCert worker id.v id.n)
  | track (preprep : PrePrepare) (request : Request) (worker : Worker)
      (admitted : Admits first preprep request)
      (above : first.currentBlock < request.blockHeight)
      (held : (worker.reqStore.lookup preprep.requestDigest).isSome = true)
      (unchanged : certAt worker ⟨preprep.view, request.reqID⟩ =
        certAt first ⟨preprep.view, request.reqID⟩)
      (free : SlotFree worker preprep request) :
      Action now first (.recvPrePrepare preprep) worker []
        (modifyCert worker ⟨preprep.view, request.reqID⟩ fun cert =>
          { cert with prePrepare := some preprep })
  | retry (preprep : PrePrepare) (request : Request) (prep : Prepare) (worker : Worker)
      (admitted : Admits first preprep request)
      (reached : prepared worker preprep.requestDigest preprep.view request.reqID = true)
      (head : (certAt worker ⟨preprep.view, request.reqID⟩).prepare.head? = some prep) :
      Action now first (.recvPrePrepare preprep) worker
        [.spawn (.recvPrepareNotTransfer prep)] worker
  | sendPrepare (preprep : PrePrepare) (request : Request) (worker : Worker)
      (admitted : Admits first preprep request)
      (above : first.currentBlock < request.blockHeight)
      (tracked : prePrepared worker preprep.requestDigest preprep.view preprep.reqID = true)
      (unsent : (certAt worker ⟨preprep.view, request.reqID⟩).sentPrepare = false) :
      Action now first (.recvPrePrepare preprep) worker
        [.post ⟨.prepare (prepareFor worker preprep), worker.nodeID⟩,
          .spawn (.recvPrepare (prepareFor worker preprep))]
        (modifyCert worker ⟨preprep.view, request.reqID⟩ fun cert =>
          { cert with sentPrepare := true })
  | addPrepare (call : Call) (prep : Prepare) (request : Request) (worker : Worker)
      (counts : call = .recvPrepare prep ∧
          (∀ p ∈ (certAt first ⟨prep.view, prep.reqID⟩).prepare, p.sender ≠ prep.sender) ∨
        call = .recvPrepareNotTransfer prep)
      (opened : worker = getCert first prep.view prep.reqID)
      (current : inV worker prep.view = true)
      (held : worker.reqStore.lookup prep.requestDigest = some request)
      (above : worker.currentBlock < request.blockHeight)
      (unsent : worker.commitStore.lookup request.blockHeight = none) :
      Action now first call worker []
        (modifyCert worker ⟨prep.view, prep.reqID⟩ fun cert =>
          { cert with prepare := cert.prepare ++ [prep] })
  | sendCommit (call : Call) (prep : Prepare) (request : Request) (block : Block) (worker : Worker)
      (counts : call = .recvPrepare prep ∨ call = .recvPrepareNotTransfer prep)
      (held : worker.reqStore.lookup prep.requestDigest = some request)
      (above : worker.currentBlock < request.blockHeight)
      (unsent : worker.commitStore.lookup request.blockHeight = none)
      (reached : prepared worker prep.requestDigest prep.view prep.reqID = true)
      (selected : selectBlock worker request.blockHeight request.blockHash request = some block) :
      Action now first call worker
        [.post ⟨.commit (commitFor worker prep request (opinionOn worker prep block)),
            worker.nodeID⟩,
          .spawn (.recvCommit (commitFor worker prep request (opinionOn worker prep block)))]
        (modifyCert (recordCommit worker request) ⟨prep.view, prep.reqID⟩ fun cert =>
          { cert with sentCommit := true })
  | relay (call : Call) (msg : Message) (worker : Worker) (brought : callMessage call = some msg) :
      Action now first call worker (sendConMsgTransfer worker (messageSender msg) msg) worker
  | addCommit (commit : Commit) (worker : Worker)
      (current : inV worker commit.view = true)
      (above : worker.currentBlock < commit.vr.blockHeight)
      (fresh : ∀ c ∈ (certAt worker ⟨commit.view, commit.reqID⟩).commit,
        c.sender ≠ commit.sender) :
      Action now first (.recvCommit commit) worker [] (addCommit worker commit)
  | decidePositive (commit : Commit) (request : Request) (worker : Worker)
      (added : worker = ConsensusHandlers.addCommit
        (getCert first commit.view commit.reqID) commit)
      (above : worker.currentBlock < commit.vr.blockHeight)
      (reached : committed worker commit.requestDigest commit.view commit.reqID = true)
      (verdict : getValidResFromCommit worker (certAt worker ⟨commit.view, commit.reqID⟩) =
        .possitive)
      (held : worker.reqStore.lookup commit.requestDigest = some request) :
      Action now first (.recvCommit commit) worker
        [.insertChain ⟨commit, request,
            selectBlock worker commit.vr.blockHeight commit.vr.blockHash request⟩,
          .postCheckpoint (checkpointFor worker commit)]
        (removeOldConMsg { worker with currentBlock := worker.currentBlock + 1 } commit.reqID)
  | decideNegative (commit : Commit) (worker : Worker)
      (reached : committed worker commit.requestDigest commit.view commit.reqID = true)
      (verdict : getValidResFromCommit worker (certAt worker ⟨commit.view, commit.reqID⟩) =
        .negative) :
      Action now first (.recvCommit commit) worker
        [.postCheckpoint (checkpointFor worker commit)] (removeOldConMsg worker commit.reqID)
  | checkpoint (chkpt : Checkpoint) (worker : Worker) :
      Action now first (.recvCheckpoint chkpt) worker [] (recvCheckpoint worker chkpt).worker

/-- The outcome of a call is reached from `first` by actions of that call. -/
def Performs (now : Instant) (first : Worker) (call : Call) (outcome : Outcome) : Prop :=
  Chain (Action now first call) first outcome.effects outcome.worker

section Requests

theorem send_request_performs (now : Instant) (first : Worker) (raaaa : Raaaa) :
    Performs now first (.sendRequest raaaa) (sendRequest first raaaa) := by
  have advanced : Chain (Action now first (.sendRequest raaaa)) first []
      { first with lastReqID := first.lastReqID + 1 } :=
    chain_next_silent .start (.advance raaaa first)
  unfold Performs sendRequest
  cases given : raaaa.block with
  | none => exact advanced
  | some block =>
      dsimp only
      split_ifs with low
      · exact advanced
      · exact Chain.next advanced (.issue raaaa _ block given (UInt64.not_le.mp low))

theorem accepts_of_tests {worker : Worker} {request : Request}
    (ready : ¬(!worker.ready) = true)
    (sound : ¬(request.sender ≠ worker.leader ∨ request.view < worker.view))
    (fresh : ¬(worker.reqStore.lookup (newhashReq request)).isSome = true)
    (above : ¬request.blockHeight ≤ worker.currentBlock) : Accepts worker request := by
  rw [not_or, not_not, UInt64.not_lt] at sound
  exact ⟨by simpa using ready, sound.1, sound.2, by simpa using fresh, UInt64.not_le.mp above⟩

theorem recv_request_performs (now : Instant) (first : Worker) (request : Request) :
    Performs now first (.recvRequest request) (recvRequest now first request) := by
  have raised : Chain (Action now first (.recvRequest request)) first []
      (raiseLastReqID first request.reqID) :=
    chain_next_silent .start (.raiseForRequest request first)
  unfold Performs recvRequest
  dsimp only
  split_ifs with unready wrong known low current
  · exact raised
  · exact raised
  · exact raised
  · exact raised
  · have accepted : Accepts first request := accepts_of_tests unready wrong known low
    have stored := chain_next_silent raised (.storeRequest request _ accepted)
    cases carried : request.realblock with
    | none => exact stored
    | some block =>
        have pooled := chain_next_silent stored
          (.pool (.recvRequest request) request block _ rfl carried)
        exact Chain.next pooled (.propose request _ accepted current (lookup_insert_self _ _ _))
  · have accepted : Accepts first request := accepts_of_tests unready wrong known low
    exact chain_next_silent raised (.storeRequest request _ accepted)

end Requests

section PrePrepares

variable {now : Instant} {first worker : Worker} {preprep : PrePrepare} {request : Request}
  {effects : List Effect}

theorem answer_pre_prepare_performs
    (prior : Chain (Action now first (.recvPrePrepare preprep)) first effects worker)
    (admitted : Admits first preprep request)
    (above : first.currentBlock < request.blockHeight) :
    Performs now first (.recvPrePrepare preprep)
      (answerPrePrepare worker preprep request effects) := by
  unfold Performs answerPrePrepare
  dsimp only
  split_ifs with due
  · rw [Bool.and_eq_true, Bool.not_eq_true'] at due
    have sent := Chain.next prior (.sendPrepare preprep request _ admitted above due.1 due.2)
    exact Chain.next sent (.relay (.recvPrePrepare preprep) (.prePrepare preprep) _ rfl)
  · exact prior

theorem pool_pre_prepare_performs
    (prior : Chain (Action now first (.recvPrePrepare preprep)) first effects worker)
    (admitted : Admits first preprep request)
    (above : first.currentBlock < request.blockHeight) :
    Performs now first (.recvPrePrepare preprep)
      (poolPrePrepare now worker preprep request effects) := by
  unfold poolPrePrepare
  cases getBlockFromPossibleValidBlock worker request.blockHeight request.blockHash with
  | some _ => exact answer_pre_prepare_performs prior admitted above
  | none =>
      cases carried : request.realblock with
      | none => exact prior
      | some block =>
          have pooled := chain_next_silent prior
            (.pool (.recvPrePrepare preprep) request block worker admitted.carried carried)
          exact answer_pre_prepare_performs pooled admitted above

theorem track_pre_prepare_performs
    (prior : Chain (Action now first (.recvPrePrepare preprep)) first [] worker)
    (admitted : Admits first preprep request)
    (above : first.currentBlock < request.blockHeight)
    (held : (worker.reqStore.lookup preprep.requestDigest).isSome = true)
    (unchanged : certAt worker ⟨preprep.view, request.reqID⟩ =
      certAt first ⟨preprep.view, request.reqID⟩) :
    Chain (Action now first (.recvPrePrepare preprep)) first
        (trackPrePrepare worker preprep request).2 (trackPrePrepare worker preprep request).1 ∧
      (trackPrePrepare worker preprep request).1.reqStore = worker.reqStore := by
  unfold trackPrePrepare
  dsimp only
  split_ifs with refused due
  · exact ⟨prior, rfl⟩
  all_goals
    have tracked := chain_next_silent prior
      (.track preprep request worker admitted above held unchanged (by
        intro p slot
        simpa [slot] using refused))
  · rw [Bool.and_eq_true] at due
    cases prepares : (certAt (modifyCert worker ⟨preprep.view, request.reqID⟩ fun cert =>
        { cert with prePrepare := some preprep }) ⟨preprep.view, request.reqID⟩).prepare with
    | nil => exact ⟨tracked, rfl⟩
    | cons head rest =>
        refine ⟨?_, rfl⟩
        exact Chain.next tracked
          (.retry preprep request head _ admitted due.1 (by rw [prepares]; rfl))
  · exact ⟨tracked, rfl⟩

/-- The digest is always held here: `RecvPrePrepare` has just stored it
unless it was there. So the comparison of digests is never reached. -/
theorem check_pre_prepare_digest_skipped (now : Instant) (preprep : PrePrepare)
    (request : Request) (effects : List Effect)
    (held : (worker.reqStore.lookup preprep.requestDigest).isSome = true) :
    checkPrePrepareDigest now worker preprep request effects =
      poolPrePrepare now worker preprep request effects := by
  unfold checkPrePrepareDigest
  rw [if_pos held]

theorem certify_pre_prepare_performs
    (prior : Chain (Action now first (.recvPrePrepare preprep)) first [] worker)
    (admitted : Admits first preprep request)
    (above : first.currentBlock < request.blockHeight)
    (held : (worker.reqStore.lookup preprep.requestDigest).isSome = true)
    (unchanged : certAt worker ⟨preprep.view, request.reqID⟩ =
      certAt first ⟨preprep.view, request.reqID⟩) :
    Performs now first (.recvPrePrepare preprep)
      (certifyPrePrepare now worker preprep request) := by
  have opened := chain_next_silent prior
    (.openCert (.recvPrePrepare preprep) ⟨preprep.view, request.reqID⟩ worker)
  obtain ⟨tracked, kept⟩ := track_pre_prepare_performs opened admitted above held
    ((cert_at_get_cert worker _ _ _).trans unchanged)
  unfold certifyPrePrepare
  dsimp only
  split_ifs
  · exact opened
  · exact tracked
  · rw [check_pre_prepare_digest_skipped now preprep request _ (by rw [kept]; exact held)]
    exact pool_pre_prepare_performs tracked admitted above

theorem recv_pre_prepare_performs (now : Instant) (first : Worker) (preprep : PrePrepare) :
    Performs now first (.recvPrePrepare preprep) (recvPrePrepare now first preprep) := by
  unfold recvPrePrepare
  split_ifs with outside unready
  · exact .start
  · exact .start
  cases carried : preprep.request with
  | none => exact .start
  | some request =>
      have current : inV first preprep.view = true := by simpa using outside
      have ready : first.ready = true := by simpa using unready
      cases known : first.reqStore.lookup preprep.requestDigest with
      | some old =>
          have admitted : Admits first preprep request :=
            ⟨carried, current, ready, .inl (by rw [known]; rfl)⟩
          simp only [Option.isSome_some, Bool.not_true, Bool.false_and, Bool.false_eq_true,
            if_false, if_true]
          split_ifs with low
          · exact .start
          · exact certify_pre_prepare_performs .start admitted (UInt64.not_le.mp low)
              (by rw [known]; rfl) rfl
      | none =>
          simp only [Option.isSome_none, Bool.not_false, Bool.true_and, Bool.false_eq_true,
            if_false]
          split_ifs with wrong low
          · exact .start
          all_goals
            have admitted : Admits first preprep request := by
              refine ⟨carried, current, ready, .inr ?_⟩
              simpa using wrong
            have stored : Chain (Action now first (.recvPrePrepare preprep)) first []
                (storeRequest (raiseLastReqID first preprep.reqID) preprep.requestDigest request) :=
              chain_next_silent
                (chain_next_silent .start (.raiseForPrePrepare preprep request first admitted known))
                (.storeCarried preprep request _ admitted known)
          · exact stored
          · exact certify_pre_prepare_performs stored admitted (UInt64.not_le.mp low)
              (by simp [storeRequest]) rfl

end PrePrepares

section Prepares

variable {now : Instant} {first worker : Worker} {call : Call} {prep : Prepare}
  {request : Request}

/-- The commitStore has been looked at before the append, so the branch that
reports `again` is not taken. -/
theorem reach_prepared_performs (again : String)
    (prior : Chain (Action now first call) first [] worker)
    (counts : call = .recvPrepare prep ∨ call = .recvPrepareNotTransfer prep)
    (held : worker.reqStore.lookup prep.requestDigest = some request)
    (unsent : worker.commitStore.lookup request.blockHeight = none)
    (reached : prepared worker prep.requestDigest prep.view prep.reqID = true)
    {transfer : List Effect}
    (relayed : ∀ effects after, after.nodeID = worker.nodeID →
      Chain (Action now first call) first effects after →
      Chain (Action now first call) first (effects ++ transfer) after) :
    Performs now first call (reachPrepared worker prep request again transfer) := by
  unfold reachPrepared
  split_ifs with low
  · exact prior
  cases selected : selectBlock worker request.blockHeight request.blockHash request with
  | none => exact prior
  | some block =>
      simp only [unsent, Option.isSome_none, Bool.false_eq_true, if_false]
      have sent := Chain.next prior (.sendCommit call prep request block worker counts held
        (UInt64.not_le.mp low) unsent reached selected)
      exact relayed _ _ rfl sent

theorem count_prepare_performs (again : String)
    (prior : Chain (Action now first call) first [] worker)
    (counts : call = .recvPrepare prep ∧
        (∀ p ∈ (certAt first ⟨prep.view, prep.reqID⟩).prepare, p.sender ≠ prep.sender) ∨
      call = .recvPrepareNotTransfer prep)
    (opened : worker = getCert first prep.view prep.reqID)
    (current : inV worker prep.view = true)
    (held : worker.reqStore.lookup prep.requestDigest = some request)
    (above : worker.currentBlock < request.blockHeight)
    (unsent : worker.commitStore.lookup request.blockHeight = none)
    {transfer : List Effect}
    (relayed : ∀ effects after, after.nodeID = worker.nodeID →
      Chain (Action now first call) first effects after →
      Chain (Action now first call) first (effects ++ transfer) after) :
    Performs now first call (countPrepare worker prep request again transfer) := by
  have added := chain_next_silent prior
    (.addPrepare call prep request worker counts opened current held above unsent)
  unfold countPrepare
  dsimp only
  split_ifs with due
  · rw [Bool.and_eq_true] at due
    exact reach_prepared_performs again added (counts.imp_left And.left) held unsent due.1 relayed
  · exact relayed [] _ rfl added

theorem relay_prepare {after : Worker} {effects : List Effect}
    (counts : callMessage call = some (.prepare prep))
    (same : after.nodeID = worker.nodeID)
    (prior : Chain (Action now first call) first effects after) :
    Chain (Action now first call) first (effects ++ sendConMsgTransfer2 worker prep) after := by
  have relayed := Chain.next prior (.relay call (.prepare prep) after counts)
  unfold sendConMsgTransfer2
  simpa only [sendConMsgTransfer, messageSender, same] using relayed

theorem recv_prepare_performs (now : Instant) (first : Worker) (prep : Prepare) :
    Performs now first (.recvPrepare prep) (recvPrepare first prep) := by
  have opened : Chain (Action now first (.recvPrepare prep)) first []
      (getCert first prep.view prep.reqID) :=
    chain_next_silent .start (.openCert _ ⟨prep.view, prep.reqID⟩ first)
  unfold recvPrepare
  dsimp only
  split
  · exact .start
  rename_i outside
  split
  · exact .start
  split
  · exact opened
  rename_i repeated
  cases held : getRequestFromStore (getCert first prep.view prep.reqID) prep.requestDigest with
  | none => exact opened
  | some request =>
      dsimp only
      split_ifs with low sent
      · exact opened
      · exact opened
      · exact opened
      refine count_prepare_performs _ opened (.inl ⟨rfl, ?_⟩) rfl
        (by simpa [inV, getCert] using outside) held (UInt64.not_le.mp low) (by simpa using sent)
        (fun _ _ same prior => relay_prepare rfl same prior)
      simpa [cert_at_get_cert] using repeated

theorem recv_prepare_not_transfer_performs (now : Instant) (first : Worker) (prep : Prepare) :
    Performs now first (.recvPrepareNotTransfer prep) (recvPrepareNotTransfer first prep) := by
  have opened : Chain (Action now first (.recvPrepareNotTransfer prep)) first []
      (getCert first prep.view prep.reqID) :=
    chain_next_silent .start (.openCert _ ⟨prep.view, prep.reqID⟩ first)
  unfold recvPrepareNotTransfer
  dsimp only
  split
  · exact .start
  rename_i outside
  split
  · exact .start
  cases held : getRequestFromStore (getCert first prep.view prep.reqID) prep.requestDigest with
  | none => exact opened
  | some request =>
      dsimp only
      split_ifs with low sent
      · exact opened
      · exact opened
      · exact opened
      all_goals
        refine count_prepare_performs _ opened (.inr rfl) rfl
          (by simpa [inV, getCert] using outside) held (UInt64.not_le.mp low)
          (by simpa using sent) (fun effects after same prior => ?_)
      · rw [List.append_nil]
        exact prior
      · exact relay_prepare rfl same prior

end Prepares

section Commits

theorem reach_committed_performs {now : Instant} {first worker : Worker} {commit : Commit}
    (prior : Chain (Action now first (.recvCommit commit)) first [] worker)
    (added : worker = addCommit (getCert first commit.view commit.reqID) commit)
    (ready : worker.ready = true)
    (above : worker.currentBlock < commit.vr.blockHeight)
    (reached : committed worker commit.requestDigest commit.view commit.reqID = true) :
    Performs now first (.recvCommit commit) (reachCommitted worker commit) := by
  have relayed : ∀ after, Action now first (.recvCommit commit) after
      (sendConMsgTransfer3 after commit) after :=
    fun after => .relay (.recvCommit commit) (.commit commit) after rfl
  unfold reachCommitted
  dsimp only
  cases held : getRequestFromStore worker commit.requestDigest with
  | none => exact prior
  | some request =>
      cases verdict : getValidResFromCommit worker
          (certAt worker ⟨commit.view, commit.reqID⟩) with
      | possitive =>
          have decided := Chain.next prior
            (.decidePositive commit request _ added above reached verdict held)
          dsimp only
          unfold decidePositive
          rw [if_neg (by simpa using ready), if_pos above]
          exact Chain.next decided (relayed _)
      | futurePossitive => exact Chain.next prior (relayed _)
      | negative =>
          have decided := Chain.next prior (.decideNegative commit _ reached verdict)
          exact Chain.next decided (relayed _)

theorem recv_commit_performs (now : Instant) (first : Worker) (commit : Commit) :
    Performs now first (.recvCommit commit) (recvCommit first commit) := by
  have opened : Chain (Action now first (.recvCommit commit)) first []
      (getCert first commit.view commit.reqID) :=
    chain_next_silent .start (.openCert _ ⟨commit.view, commit.reqID⟩ first)
  unfold recvCommit
  dsimp only
  split_ifs with outside unready low repeated reached
  · exact .start
  · exact .start
  · exact .start
  · exact opened
  all_goals
    have added := chain_next_silent opened
      (.addCommit commit _ (by simpa [inV, getCert] using outside) (UInt64.not_le.mp low)
        (by simpa using repeated))
  · have ready : first.ready = true := by simpa using unready
    exact reach_committed_performs added rfl ready (UInt64.not_le.mp low) reached
  · exact Chain.next added (.relay (.recvCommit commit) (.commit commit) _ rfl)

end Commits

theorem recv_checkpoint_silent (worker : Worker) (chkpt : Checkpoint) :
    (recvCheckpoint worker chkpt).effects = [] := by
  unfold recvCheckpoint recvCheckpointWith
  dsimp only
  split_ifs <;> rfl

theorem recv_checkpoint_performs (now : Instant) (first : Worker) (chkpt : Checkpoint) :
    Performs now first (.recvCheckpoint chkpt) (recvCheckpoint first chkpt) := by
  have closed : Chain (Action now first (.recvCheckpoint chkpt)) first []
      (recvCheckpoint first chkpt).worker :=
    chain_next_silent .start (.checkpoint chkpt first)
  unfold Performs
  rw [recv_checkpoint_silent]
  exact closed

theorem run_call_performs (now : Instant) (first : Worker) (call : Call) :
    Performs now first call (runCall now first call) := by
  cases call with
  | sendRequest raaaa => exact send_request_performs now first raaaa
  | recvRequest request => exact recv_request_performs now first request
  | recvPrePrepare preprep => exact recv_pre_prepare_performs now first preprep
  | recvPrepare prep => exact recv_prepare_performs now first prep
  | recvPrepareNotTransfer prep => exact recv_prepare_not_transfer_performs now first prep
  | recvCommit commit => exact recv_commit_performs now first commit
  | recvCheckpoint chkpt => exact recv_checkpoint_performs now first chkpt

end PbftBlock.HandlerActions
