import PbftBlock.RejectedMessages

/-!
# Panics in the handlers

`handleMsg` runs the handlers in a goroutine without a `recover`, on whatever
the payload decodes to: a missing or null field is a nil pointer or an empty
string, and a payload that does not decode is the zero value. Three of the five
handlers recover. `RecvRequest` has neither a `recover` nor a test of `Realblock`
in front of `PutPVBAndBeats`. `RecvCheckpoint` reads the chain, which is nil until
`Initt` has run, and `main` starts the network first.
-/

namespace PbftBlock.HandlerPanics

open PbftBlock.ConsensusMessages PbftBlock.ConsensusWorker PbftBlock.ConsensusBasics
open PbftBlock.ConsensusHandlers PbftBlock.HandlerActions PbftBlock.RejectedMessages
open PbftBlock.Library.FiniteMaps

set_option autoImplicit false

/-- What `handleMsg` passes to a handler: a `ConMsg` or `Zhuanfa` payload is one
of the four messages, a `Checkpoin` payload a checkpoint. -/
inductive Decoded where
  | message (msg : Message)
  | checkpoint (chkpt : Checkpoint)

/-- `Node1`. Until `Initt`, here one step, it is what `new(worker)` made: it has no chain and is
not ready, so that only `RecvCheckpoint` comes to a read of the chain. -/
inductive Node1 where
  | fresh (worker : Worker) (unready : worker.ready = false)
  | initialised (worker : Worker)

def Node1.worker : Node1 → Worker
  | .fresh worker _ => worker
  | .initialised worker => worker

def Node1.chain : Node1 → Option UInt64
  | .fresh _ _ => none
  | .initialised worker => some worker.currentBlock

def Node1.initt (con : Config) : Option Node1 := (ConsensusWorker.initt con).map .initialised

def callHandler (now : Instant) (node : Node1) : Decoded → Outcome
  | .message msg => runCall now node.worker (messageCall msg)
  | .checkpoint chkpt => recvCheckpointWith node.chain node.worker chkpt

def Survives (outcome : Outcome) : Prop := outcome.result ≠ .crash

@[simp]
theorem survives_done (worker : Worker) (effects : List Effect) : Survives (done worker effects) :=
  Result.noConfusion

@[simp]
theorem survives_failed (worker : Worker) (text : String) (effects : List Effect) :
    Survives (failed worker text effects) :=
  Result.noConfusion

@[simp]
theorem survives_recovered (worker : Worker) (effects : List Effect) :
    Survives (recovered worker effects) :=
  Result.noConfusion

theorem not_survives_crashed (worker : Worker) (effects : List Effect) :
    ¬Survives (crashed worker effects) :=
  fun survives => survives rfl

section PrePrepares

variable (now : Instant) (worker : Worker) (preprep : PrePrepare) (request : Request)
  (effects : List Effect)

theorem answer_pre_prepare_survives :
    Survives (answerPrePrepare worker preprep request effects) := by
  unfold answerPrePrepare
  dsimp only
  split_ifs <;> simp

theorem pool_pre_prepare_survives :
    Survives (poolPrePrepare now worker preprep request effects) := by
  unfold poolPrePrepare
  cases getBlockFromPossibleValidBlock worker request.blockHeight request.blockHash with
  | some _ => exact answer_pre_prepare_survives worker preprep request effects
  | none =>
      cases request.realblock with
      | none => exact survives_recovered worker effects
      | some block => exact answer_pre_prepare_survives _ preprep request effects

theorem certify_pre_prepare_survives : Survives (certifyPrePrepare now worker preprep request) := by
  unfold certifyPrePrepare checkPrePrepareDigest
  dsimp only
  split_ifs <;> first
    | exact survives_done _ _
    | exact pool_pre_prepare_survives now _ preprep request _

theorem recv_pre_prepare_survives : Survives (recvPrePrepare now worker preprep) := by
  unfold recvPrePrepare
  split_ifs
  · exact survives_done _ _
  · exact survives_failed _ _ _
  cases preprep.request with
  | none => exact survives_recovered worker []
  | some request =>
      dsimp only
      split_ifs <;> first
        | exact survives_failed _ _ _
        | exact certify_pre_prepare_survives now _ preprep request

end PrePrepares

section Votes

variable (worker : Worker)

theorem reach_prepared_survives (prep : Prepare) (request : Request) (again : String)
    (transfer : List Effect) : Survives (reachPrepared worker prep request again transfer) := by
  unfold reachPrepared
  split_ifs
  · exact survives_failed _ _ _
  cases selectBlock worker request.blockHeight request.blockHash request with
  | none => exact survives_recovered _ _
  | some block =>
      dsimp only
      split_ifs <;> simp

theorem count_prepare_survives (prep : Prepare) (request : Request) (again : String)
    (transfer : List Effect) : Survives (countPrepare worker prep request again transfer) := by
  unfold countPrepare
  dsimp only
  split_ifs
  · exact reach_prepared_survives _ prep request again transfer
  · exact survives_done _ _

theorem recv_prepare_survives (prep : Prepare) : Survives (recvPrepare worker prep) := by
  unfold recvPrepare
  dsimp only
  cases getRequestFromStore (getCert worker prep.view prep.reqID) prep.requestDigest with
  | none =>
      dsimp only
      split_ifs <;> exact survives_failed _ _ _
  | some request =>
      dsimp only
      split_ifs <;> first
        | exact survives_failed _ _ _
        | exact count_prepare_survives _ prep request _ _

theorem recv_commit_survives (commit : Commit) : Survives (recvCommit worker commit) := by
  unfold recvCommit reachCommitted
  dsimp only
  split_ifs
  · exact survives_failed _ _ _
  · exact survives_failed _ _ _
  · exact survives_failed _ _ _
  · exact survives_failed _ _ _
  · cases getRequestFromStore (addCommit (getCert worker commit.view commit.reqID) commit)
        commit.requestDigest with
    | none => exact survives_failed _ _ _
    | some request =>
        cases getValidResFromCommit (addCommit (getCert worker commit.view commit.reqID) commit)
          (certAt (addCommit (getCert worker commit.view commit.reqID) commit)
            ⟨commit.view, commit.reqID⟩) with
        | possitive =>
            unfold decidePositive
            dsimp only
            split_ifs <;> simp
        | futurePossitive => exact survives_done _ _
        | negative => exact survives_done _ _
  · exact survives_done _ _

theorem recv_checkpoint_survives_iff (chain : Option UInt64) (chkpt : Checkpoint) :
    Survives (recvCheckpointWith chain worker chkpt) ↔
      chain.isSome = true ∨ (worker.checkpointStore.lookup chkpt.blockHash).isSome = true := by
  unfold recvCheckpointWith
  dsimp only
  by_cases known : (worker.checkpointStore.lookup chkpt.blockHash).isSome = true
  · rw [if_pos known]
    exact iff_of_true (survives_failed _ _ _) (.inr known)
  rw [if_neg known]
  cases chain with
  | none =>
      refine iff_of_false (not_survives_crashed _ _) ?_
      rintro (wrong | found)
      · cases wrong
      · exact known found
  | some cbn =>
      refine iff_of_true ?_ (.inl rfl)
      dsimp only
      split_ifs <;> simp

end Votes

/-- The Request that reaches `PutPVBAndBeats` with a nil block. -/
structure NilProposal (worker : Worker) (request : Request) : Prop where
  accepted : Accepts worker request
  current : inV worker request.view = true
  missing : request.realblock = none

theorem recv_request_survives_iff (now : Instant) (worker : Worker) (request : Request) :
    Survives (recvRequest now worker request) ↔ ¬NilProposal worker request := by
  unfold recvRequest
  dsimp only
  split_ifs with unready wrong known low current
  · refine iff_of_true (survives_failed _ _ _) fun nil => ?_
    simp [raiseLastReqID, nil.accepted.ready] at unready
  · refine iff_of_true (survives_failed _ _ _) fun nil => ?_
    rcases wrong with sender | view
    · exact sender nil.accepted.leader
    · exact absurd nil.accepted.view (UInt64.not_le.mpr view)
  · refine iff_of_true (survives_failed _ _ _) fun nil => ?_
    simp [raiseLastReqID, nil.accepted.fresh] at known
  · refine iff_of_true (survives_failed _ _ _) fun nil => ?_
    exact absurd nil.accepted.above (UInt64.not_lt.mpr low)
  · have accepted : Accepts worker request := accepts_of_tests unready wrong known low
    cases missing : request.realblock with
    | none =>
        exact iff_of_false (not_survives_crashed _ _) fun sound =>
          sound ⟨accepted, current, missing⟩
    | some block =>
        refine iff_of_true (survives_done _ _) fun nil => ?_
        rw [nil.missing] at missing
        cases missing
  · refine iff_of_true (survives_done _ _) fun nil => ?_
    exact current nil.current

/-- A handler called by `handleMsg` ends in an uncaught panic exactly on an
acceptable Request of the current view without a block, and on a Checkpoint that
is not known when it comes before `Initt`. -/
theorem handlers_survive_iff (now : Instant) (node : Node1) (decoded : Decoded) :
    Survives (callHandler now node decoded) ↔
      (∀ request, decoded = .message (.request request) → ¬NilProposal node.worker request) ∧
        ∀ chkpt, decoded = .checkpoint chkpt → node.chain.isSome = true ∨
          (node.worker.checkpointStore.lookup chkpt.blockHash).isSome = true := by
  cases decoded with
  | checkpoint chkpt =>
      refine (recv_checkpoint_survives_iff node.worker node.chain chkpt).trans
        ⟨fun read => ⟨?_, ?_⟩, fun sound => sound.2 chkpt rfl⟩
      · rintro request other
        cases other
      · rintro other same
        cases same
        exact read
  | message msg =>
      have unchecked : ∀ chkpt, Decoded.message msg = .checkpoint chkpt →
          node.chain.isSome = true ∨
            (node.worker.checkpointStore.lookup chkpt.blockHash).isSome = true := by
        rintro chkpt other
        cases other
      cases msg with
      | request request =>
          refine (recv_request_survives_iff now node.worker request).trans
            ⟨fun sound => ⟨?_, unchecked⟩, fun sound => sound.1 request rfl⟩
          rintro other same
          cases same
          exact sound
      | prePrepare preprep =>
          refine iff_of_true (recv_pre_prepare_survives now node.worker preprep) ⟨?_, unchecked⟩
          rintro request other
          cases other
      | prepare prep =>
          refine iff_of_true (recv_prepare_survives node.worker prep) ⟨?_, unchecked⟩
          rintro request other
          cases other
      | commit commit =>
          refine iff_of_true (recv_commit_survives node.worker commit) ⟨?_, unchecked⟩
          rintro request other
          cases other

/-- Once `Initt` has run, no Checkpoint ends the process. -/
theorem initt_survives_checkpoints (now : Instant) {con : Config} {node : Node1}
    (made : Node1.initt con = some node) (chkpt : Checkpoint) :
    Survives (callHandler now node (.checkpoint chkpt)) := by
  obtain ⟨worker, _, rfl⟩ := Option.map_eq_some_iff.mp made
  exact (recv_checkpoint_survives_iff worker _ chkpt).mpr (.inl rfl)

def blocklessRequest : Request := ⟨2, "a", 1, 2, "", hexToAddress "a", [], none⟩

/-- `new(worker)`. -/
def newWorker : Worker :=
  { startWorker "" "" 0 with view := 0, ready := false, lastReqID := 0, currentBlock := 0 }

/-- The Request takes a node down that has just been initialised, and any Checkpoint one that has
not. -/
theorem decoded_values_crash :
    (callHandler 0 (.initialised (startWorker "b" "a" 4))
        (.message (.request blocklessRequest))).result = .crash ∧
      (callHandler 0 (.fresh newWorker rfl) (.checkpoint ⟨"a", 2, 2, ""⟩)).result = .crash := by
  decide

end PbftBlock.HandlerPanics
