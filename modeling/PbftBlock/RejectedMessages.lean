import PbftBlock.CertificateVotes
import PbftBlock.StoreKeys

/-!
# What a rejected message leaves behind

A handler that returns an error may have written by then: `RecvRequest` raises
`LastReqID` before its first test, `RecvPrePrepare` stores the request before it
looks at the height and writes the slot before it dereferences the block, and
the two vote handlers open or extend a certificate before their last tests. For
each handler the states and messages in which nothing has been written by the
time of the error are described exactly.
-/

namespace PbftBlock.RejectedMessages

open PbftBlock.ConsensusMessages PbftBlock.ConsensusWorker PbftBlock.ConsensusBasics
open PbftBlock.ConsensusHandlers PbftBlock.HandlerActions PbftBlock.NodeContents
open PbftBlock.CommitOncePerHeight PbftBlock.PrepareDigests PbftBlock.CertificateVotes
open PbftBlock.StoreKeys
open PbftBlock.Library.FiniteMaps PbftBlock.Library.DistinctVotes

set_option autoImplicit false

/-- The parts of the consensus state a message may touch are as before; maps
are compared by what they hold. -/
structure SameTrace (before after : Worker) : Prop where
  lastReqID : after.lastReqID = before.lastReqID
  requests : ∀ digest, after.reqStore.lookup digest = before.reqStore.lookup digest
  certs : ∀ id, after.certStore.lookup id = before.certStore.lookup id
  pool : after.possibleValidBlock = before.possibleValidBlock
  beats : after.blockbeats = before.blockbeats
  commits : after.commitStore = before.commitStore
  head : after.currentBlock = before.currentBlock

theorem same_trace_refl (worker : Worker) : SameTrace worker worker :=
  ⟨rfl, fun _ => rfl, fun _ => rfl, rfl, rfl, rfl, rfl⟩

def Traceless (first : Worker) (outcome : Outcome) : Prop :=
  ∀ text, outcome.result = .err text → SameTrace first outcome.worker

theorem traceless_done (first worker : Worker) (effects : List Effect) :
    Traceless first (done worker effects) := by
  intro text rejected
  cases rejected

theorem traceless_crashed (first worker : Worker) (effects : List Effect) :
    Traceless first (crashed worker effects) := by
  intro text rejected
  cases rejected

theorem traceless_failed (first worker : Worker) (text : String) (effects : List Effect) :
    Traceless first (failed worker text effects) ↔ SameTrace first worker := by
  constructor
  · intro quiet
    exact quiet text rfl
  · intro same _ _
    exact same

theorem traceless_unmoved (worker : Worker) (text : String) (effects : List Effect) :
    Traceless worker (failed worker text effects) :=
  (traceless_failed worker worker text effects).mpr (same_trace_refl worker)

section Certificates

variable {worker : Worker} {v reqID : UInt64}

theorem get_cert_of_known (known : (worker.certStore.lookup ⟨v, reqID⟩).isSome = true) :
    getCert worker v reqID = worker := by
  obtain ⟨cert, present⟩ := Option.isSome_iff_exists.mp known
  simp only [getCert, present]

theorem get_cert_known (worker : Worker) (v reqID : UInt64) :
    ((getCert worker v reqID).certStore.lookup ⟨v, reqID⟩).isSome = true := by
  unfold getCert
  cases present : worker.certStore.lookup ⟨v, reqID⟩ with
  | some cert => simp [present]
  | none => simp

/-- Opening a certificate is a change exactly when its key is new. -/
theorem same_trace_get_cert :
    SameTrace worker (getCert worker v reqID) ↔
      (worker.certStore.lookup ⟨v, reqID⟩).isSome = true := by
  constructor
  · intro same
    rw [← same.certs]
    exact get_cert_known worker v reqID
  · intro known
    rw [get_cert_of_known known]
    exact same_trace_refl worker

theorem known_of_cert_at {id : MsgID} (nonempty : certAt worker id ≠ {}) :
    (worker.certStore.lookup id).isSome = true := by
  cases present : worker.certStore.lookup id with
  | some cert => rfl
  | none => exact absurd (by simp [certAt, present]) nonempty

theorem known_of_slot {id : MsgID} {preprep : PrePrepare} (slot : slotOf worker id = some preprep) :
    (worker.certStore.lookup id).isSome = true := by
  apply known_of_cert_at
  intro empty
  rw [slotOf, empty] at slot
  cases slot

end Certificates

section Requests

variable {worker : Worker} {request : Request}

theorem recv_request_accepted (now : Instant) (accepted : Accepts worker request) :
    Traceless worker (recvRequest now worker request) := by
  have current : ¬(!worker.ready) = true := by simp [accepted.ready]
  have sound : ¬(request.sender ≠ worker.leader ∨ request.view < worker.view) := by
    rw [not_or, not_not, UInt64.not_lt]
    exact ⟨accepted.leader, accepted.view⟩
  have fresh : ¬(worker.reqStore.lookup (newhashReq request)).isSome = true := by
    simp [accepted.fresh]
  have above : ¬request.blockHeight ≤ worker.currentBlock := UInt64.not_le.mpr accepted.above
  unfold recvRequest
  dsimp only
  refine (congrArg (Traceless worker) ((if_neg current).trans ((if_neg sound).trans
    ((if_neg fresh).trans (if_neg above))))).mpr ?_
  split_ifs
  · cases request.realblock with
    | none => exact traceless_crashed _ _ _
    | some block => exact traceless_done _ _ _
  · exact traceless_done _ _ _

theorem recv_request_rejected (now : Instant) (rejected : ¬Accepts worker request) :
    ∃ text, recvRequest now worker request =
      failed (raiseLastReqID worker request.reqID) text [] := by
  unfold recvRequest
  dsimp only
  split_ifs with unready wrong known low current
  · exact ⟨_, rfl⟩
  · exact ⟨_, rfl⟩
  · exact ⟨_, rfl⟩
  · exact ⟨_, rfl⟩
  all_goals
    have accepted : Accepts worker request := accepts_of_tests unready wrong known low
    exact absurd accepted rejected

theorem same_trace_raise (worker : Worker) (reqID : UInt64) :
    SameTrace worker (raiseLastReqID worker reqID) ↔ reqID ≤ worker.lastReqID := by
  constructor
  · intro same
    have kept := same.lastReqID
    unfold raiseLastReqID at kept
    dsimp only at kept
    split_ifs at kept with higher
    · exact UInt64.le_of_eq kept
    · exact UInt64.not_lt.mp higher
  · intro known
    unfold raiseLastReqID
    rw [if_neg (UInt64.not_lt.mpr known)]
    exact same_trace_refl worker

/-- A Request leaves no trace unless it is rejected and its number is new. -/
def requestTraceless (worker : Worker) (request : Request) : Prop :=
  Accepts worker request ∨ request.reqID ≤ worker.lastReqID

theorem recv_request_traceless_iff (now : Instant) (worker : Worker) (request : Request) :
    Traceless worker (recvRequest now worker request) ↔ requestTraceless worker request := by
  by_cases accepted : Accepts worker request
  · exact ⟨fun _ => .inl accepted, fun _ => recv_request_accepted now accepted⟩
  · obtain ⟨text, result⟩ := recv_request_rejected now accepted
    rw [result, traceless_failed, same_trace_raise]
    exact ⟨.inr, fun condition => condition.resolve_left accepted⟩

end Requests

section PrePrepares

variable {worker : Worker} {preprep : PrePrepare} {request : Request}

/-- The slot `RecvPrePrepare` writes is empty or has the digest of the message. -/
def SlotFree (worker : Worker) (preprep : PrePrepare) (request : Request) : Prop :=
  ∀ p, slotOf worker ⟨preprep.view, request.reqID⟩ = some p →
    p.requestDigest = preprep.requestDigest

/-- The slot `RecvPrePrepare` reads, which need not be the one it writes, names
view, number and digest of the message. -/
def SlotNames (worker : Worker) (preprep : PrePrepare) : Prop :=
  ∃ p, slotOf worker ⟨preprep.view, preprep.reqID⟩ = some p ∧ p.view = preprep.view ∧
    p.reqID = preprep.reqID ∧ p.requestDigest = preprep.requestDigest

theorem pre_prepared_iff_slot_names
    (held : (worker.reqStore.lookup preprep.requestDigest).isSome = true) :
    prePrepared worker preprep.requestDigest preprep.view preprep.reqID = true ↔
      SlotNames worker preprep := by
  rw [pre_prepared_eq, held, Bool.or_true, Bool.true_and, Option.any_eq_true]
  simp only [Bool.and_eq_true, beq_iff_eq, and_assoc]
  rfl

theorem track_pre_prepare_worker_of_free (free : SlotFree worker preprep request) :
    (trackPrePrepare worker preprep request).1 =
      modifyCert worker ⟨preprep.view, request.reqID⟩ fun cert =>
        { cert with prePrepare := some preprep } := by
  unfold trackPrePrepare
  dsimp only
  split_ifs with refused due
  · exfalso
    unfold SlotFree slotOf at free
    cases slot : (certAt worker ⟨preprep.view, request.reqID⟩).prePrepare with
    | none => simp [slot] at refused
    | some p => simp [slot, free p slot] at refused
  · cases (certAt (modifyCert worker ⟨preprep.view, request.reqID⟩ fun cert =>
        { cert with prePrepare := some preprep }) ⟨preprep.view, request.reqID⟩).prepare <;> rfl
  · rfl

theorem track_pre_prepare_refused (taken : ¬SlotFree worker preprep request) :
    trackPrePrepare worker preprep request = (worker, []) := by
  unfold SlotFree at taken
  push Not at taken
  obtain ⟨p, slot, other⟩ := taken
  rw [slotOf] at slot
  unfold trackPrePrepare
  dsimp only
  rw [slot]
  exact if_pos (by simpa using other)

/-- The slot that is read, seen from the worker before the slot is written. -/
def SlotNamesAfter (worker : Worker) (preprep : PrePrepare) (request : Request) : Prop :=
  preprep.reqID = request.reqID ∧ SlotFree worker preprep request ∨
    preprep.reqID ≠ request.reqID ∧ SlotNames worker preprep

theorem slot_names_after_track :
    SlotNames (trackPrePrepare worker preprep request).1 preprep ↔
      SlotNamesAfter worker preprep request := by
  unfold SlotNamesAfter
  by_cases free : SlotFree worker preprep request
  · rw [track_pre_prepare_worker_of_free free]
    unfold SlotNames
    rw [slot_of_write]
    by_cases same : preprep.reqID = request.reqID
    · simp [same, free]
    · simp [same]
  · rw [track_pre_prepare_refused free]
    by_cases same : preprep.reqID = request.reqID
    · have other : ¬SlotNames worker preprep := by
        rintro ⟨p, slot, _, _, digest⟩
        apply free
        intro q held
        rw [← same, slot] at held
        exact Option.some.inj held ▸ digest
      simp [same, free, other]
    · simp [same]

/-- The nil dereference of the block: the proposal gets through to the pool, no
block is pooled under its height and hash, and it carries none. -/
structure PanicsOnBlock (worker : Worker) (preprep : PrePrepare) (request : Request) : Prop where
  above : worker.currentBlock < request.blockHeight
  unsent : ¬(SlotNames worker preprep ∧
    (certAt worker ⟨preprep.view, request.reqID⟩).sentPrepare = true)
  reached : SlotNamesAfter worker preprep request
  unpooled : getBlockFromPossibleValidBlock worker request.blockHeight request.blockHash = none
  blockless : request.realblock = none

theorem answer_pre_prepare_traceless (first worker : Worker) (preprep : PrePrepare)
    (request : Request) (effects : List Effect) :
    Traceless first (answerPrePrepare worker preprep request effects) := by
  unfold answerPrePrepare
  dsimp only
  split_ifs
  · exact traceless_done _ _ _
  · exact traceless_done _ _ _

theorem pool_pre_prepare_traceless (now : Instant) (first worker : Worker) (preprep : PrePrepare)
    (request : Request) (effects : List Effect)
    (carried : getBlockFromPossibleValidBlock worker request.blockHeight request.blockHash ≠ none ∨
      request.realblock ≠ none) :
    Traceless first (poolPrePrepare now worker preprep request effects) := by
  unfold poolPrePrepare
  cases pooled : getBlockFromPossibleValidBlock worker request.blockHeight request.blockHash with
  | some _ => exact answer_pre_prepare_traceless _ _ _ _ _
  | none =>
      cases given : request.realblock with
      | none => exact absurd given (carried.resolve_left (fun known => known pooled))
      | some block => exact answer_pre_prepare_traceless _ _ _ _ _

theorem pool_pre_prepare_panics (now : Instant) (worker : Worker) (preprep : PrePrepare)
    (effects : List Effect)
    (unpooled : getBlockFromPossibleValidBlock worker request.blockHeight request.blockHash = none)
    (blockless : request.realblock = none) :
    poolPrePrepare now worker preprep request effects = recovered worker effects := by
  unfold poolPrePrepare
  simp only [unpooled, blockless]

theorem track_pre_prepare_frame (worker : Worker) (preprep : PrePrepare) (request : Request) :
    ∃ certs, (trackPrePrepare worker preprep request).1 = { worker with certStore := certs } := by
  by_cases free : SlotFree worker preprep request
  · rw [track_pre_prepare_worker_of_free free]
    exact ⟨_, rfl⟩
  · rw [track_pre_prepare_refused free]
    exact ⟨worker.certStore, rfl⟩

def trackedWorker (worker : Worker) (preprep : PrePrepare) (request : Request) : Worker :=
  (trackPrePrepare (getCert worker preprep.view request.reqID) preprep request).1

theorem tracked_worker_frame (worker : Worker) (preprep : PrePrepare) (request : Request) :
    ∃ certs, trackedWorker worker preprep request = { worker with certStore := certs } := by
  obtain ⟨certs, frame⟩ := track_pre_prepare_frame (getCert worker preprep.view request.reqID)
    preprep request
  exact ⟨certs, frame⟩

theorem tracked_worker_req_store (worker : Worker) (preprep : PrePrepare) (request : Request) :
    (trackedWorker worker preprep request).reqStore = worker.reqStore := by
  obtain ⟨_, frame⟩ := tracked_worker_frame worker preprep request
  rw [frame]

theorem tracked_worker_block (worker : Worker) (preprep : PrePrepare) (request : Request)
    (bn : UInt64) (bhash : String) :
    getBlockFromPossibleValidBlock (trackedWorker worker preprep request) bn bhash =
      getBlockFromPossibleValidBlock worker bn bhash := by
  obtain ⟨_, frame⟩ := tracked_worker_frame worker preprep request
  rw [frame]
  rfl

theorem slot_names_tracked_worker :
    SlotNames (trackedWorker worker preprep request) preprep ↔
      SlotNamesAfter worker preprep request := by
  unfold trackedWorker
  rw [slot_names_after_track]
  simp only [SlotNamesAfter, SlotFree, SlotNames, slot_of_get_cert]

/-- Before the block is looked for, `RecvPrePrepare` from `getCert` on returns
without an error; afterwards it returns one only by the panic. -/
theorem certify_pre_prepare_cases (now : Instant) (above : worker.currentBlock < request.blockHeight)
    (held : (worker.reqStore.lookup preprep.requestDigest).isSome = true) :
    (¬PanicsOnBlock worker preprep request ∧
        ∀ first, Traceless first (certifyPrePrepare now worker preprep request)) ∨
      PanicsOnBlock worker preprep request ∧
        ∃ effects, certifyPrePrepare now worker preprep request =
          recovered (trackedWorker worker preprep request) effects := by
  have heldOpen : ((getCert worker preprep.view request.reqID).reqStore.lookup
      preprep.requestDigest).isSome = true := held
  have heldTracked : ((trackedWorker worker preprep request).reqStore.lookup
      preprep.requestDigest).isSome = true := by
    rw [tracked_worker_req_store]
    exact held
  have opened : SlotNames (getCert worker preprep.view request.reqID) preprep ↔
      SlotNames worker preprep := by
    simp only [SlotNames, slot_of_get_cert]
  have certEq : certifyPrePrepare now worker preprep request =
      if prePrepared (getCert worker preprep.view request.reqID) preprep.requestDigest
          preprep.view preprep.reqID &&
          (certAt (getCert worker preprep.view request.reqID)
            ⟨preprep.view, request.reqID⟩).sentPrepare then
        done (getCert worker preprep.view request.reqID) []
      else if !prePrepared (trackedWorker worker preprep request) preprep.requestDigest
          preprep.view preprep.reqID then
        done (trackedWorker worker preprep request)
          (trackPrePrepare (getCert worker preprep.view request.reqID) preprep request).2
      else checkPrePrepareDigest now (trackedWorker worker preprep request) preprep request
          (trackPrePrepare (getCert worker preprep.view request.reqID) preprep request).2 := rfl
  rw [certEq, cert_at_get_cert]
  split_ifs with sent missing
  · rw [Bool.and_eq_true, pre_prepared_iff_slot_names heldOpen, opened] at sent
    exact .inl ⟨fun panics => panics.unsent sent, fun first => traceless_done _ _ _⟩
  · refine .inl ⟨fun panics => ?_, fun first => traceless_done _ _ _⟩
    have names := slot_names_tracked_worker.mpr panics.reached
    rw [← pre_prepared_iff_slot_names heldTracked] at names
    simp [names] at missing
  · rw [check_pre_prepare_digest_skipped now preprep request _ heldTracked]
    rw [Bool.and_eq_true, pre_prepared_iff_slot_names heldOpen, opened] at sent
    have reached : SlotNamesAfter worker preprep request := by
      rw [← slot_names_tracked_worker, ← pre_prepared_iff_slot_names heldTracked]
      simpa using missing
    by_cases carried : getBlockFromPossibleValidBlock worker request.blockHeight
        request.blockHash ≠ none ∨ request.realblock ≠ none
    · refine .inl ⟨fun panics => ?_, fun first => ?_⟩
      · exact carried.elim (fun known => known panics.unpooled) (fun known => known panics.blockless)
      · exact pool_pre_prepare_traceless now first _ preprep request _
          (by rwa [tracked_worker_block])
    · push Not at carried
      exact .inr ⟨⟨above, sent, reached, carried.1, carried.2⟩, _,
        pool_pre_prepare_panics now _ preprep _ (by rw [tracked_worker_block]; exact carried.1)
          carried.2⟩

theorem same_trace_tracked_worker :
    SameTrace worker (trackedWorker worker preprep request) ↔
      (SlotFree worker preprep request →
        slotOf worker ⟨preprep.view, request.reqID⟩ = some preprep) := by
  have freeOpen : SlotFree (getCert worker preprep.view request.reqID) preprep request ↔
      SlotFree worker preprep request := by
    simp only [SlotFree, slot_of_get_cert]
  unfold trackedWorker
  constructor
  · intro same free
    have slot := slot_of_write (getCert worker preprep.view request.reqID)
      ⟨preprep.view, request.reqID⟩ ⟨preprep.view, request.reqID⟩ preprep
    rw [← track_pre_prepare_worker_of_free (freeOpen.mpr free), if_pos rfl] at slot
    rw [← slot]
    unfold slotOf certAt
    rw [same.certs]
  · intro settled
    by_cases free : SlotFree worker preprep request
    · have slot := settled free
      rw [get_cert_of_known (known_of_slot slot), track_pre_prepare_worker_of_free free]
      refine ⟨rfl, fun _ => rfl, fun id => ?_, rfl, rfl, rfl, rfl⟩
      rw [lookup_modify_cert]
      split_ifs with here
      · obtain ⟨cert, present⟩ := Option.isSome_iff_exists.mp (known_of_slot slot)
        rw [slotOf, cert_at_of_lookup present] at slot
        rw [here, cert_at_of_lookup present, present, ← slot]
      · rfl
    · have taken := free
      unfold SlotFree at taken
      push Not at taken
      obtain ⟨p, slot, _⟩ := taken
      rw [get_cert_of_known (known_of_slot slot), track_pre_prepare_refused free]
      exact same_trace_refl worker

def admittedWorker (worker : Worker) (preprep : PrePrepare) (request : Request) : Worker :=
  if (worker.reqStore.lookup preprep.requestDigest).isSome then worker
  else storeRequest (raiseLastReqID worker preprep.reqID) preprep.requestDigest request

theorem recv_pre_prepare_admitted (now : Instant) (admitted : Admits worker preprep request) :
    recvPrePrepare now worker preprep =
      if request.blockHeight ≤ worker.currentBlock then
        failed (admittedWorker worker preprep request) "preprep.Request block already onchain" []
      else certifyPrePrepare now (admittedWorker worker preprep request) preprep request := by
  have current : ¬(!inV worker preprep.view) = true := by simp [admitted.current]
  have ready : ¬(!worker.ready) = true := by simp [admitted.ready]
  unfold recvPrePrepare admittedWorker
  refine (if_neg current).trans ((if_neg ready).trans ?_)
  rw [admitted.carried]
  dsimp only
  cases known : worker.reqStore.lookup preprep.requestDigest with
  | some old => simp
  | none =>
      have sound : request.sender = worker.leader ∧ worker.view ≤ request.view :=
        admitted.sound.resolve_left (by simp [known])
      simp [sound.1, UInt64.not_lt.mpr sound.2, storeRequest, raiseLastReqID]

theorem recv_pre_prepare_unadmitted (now : Instant)
    (refused : ∀ request, ¬Admits worker preprep request) :
    Traceless worker (recvPrePrepare now worker preprep) := by
  unfold recvPrePrepare
  split_ifs with outside unready
  · exact traceless_done _ _ _
  · exact traceless_unmoved _ _ _
  · cases carried : preprep.request with
    | none => exact traceless_unmoved _ _ _
    | some request =>
        dsimp only
        split_ifs with wrong
        · exact traceless_unmoved _ _ _
        all_goals
          refine absurd ⟨carried, by simpa using outside, by simpa using unready, ?_⟩
            (refused request)
          simp only [Bool.and_eq_true, Bool.not_eq_true', Bool.or_eq_true, bne_iff_ne,
            decide_eq_true_eq] at wrong
          grind

/-- A PrePrepare that gets as far as the height test leaves no trace unless it
fails there under a new digest, or panics with a new digest or a slot that did
not hold the very same message. -/
def prePrepareTraceless (worker : Worker) (preprep : PrePrepare) : Prop :=
  ∀ request, Admits worker preprep request →
    (request.blockHeight ≤ worker.currentBlock →
      (worker.reqStore.lookup preprep.requestDigest).isSome = true) ∧
    (PanicsOnBlock worker preprep request →
      (worker.reqStore.lookup preprep.requestDigest).isSome = true ∧
        (SlotFree worker preprep request →
          slotOf worker ⟨preprep.view, request.reqID⟩ = some preprep))

theorem admitted_worker_known
    (known : (worker.reqStore.lookup preprep.requestDigest).isSome = true) :
    admittedWorker worker preprep request = worker :=
  if_pos known

theorem admitted_worker_held (worker : Worker) (preprep : PrePrepare) (request : Request) :
    ((admittedWorker worker preprep request).reqStore.lookup preprep.requestDigest).isSome =
      true := by
  unfold admittedWorker
  split_ifs with known
  · exact known
  · simp [storeRequest]

/-- Everything but `reqStore` and `LastReqID` is as in the first worker. -/
theorem panics_on_block_admitted :
    PanicsOnBlock (admittedWorker worker preprep request) preprep request ↔
      PanicsOnBlock worker preprep request := by
  unfold admittedWorker
  split_ifs
  · rfl
  · exact ⟨fun panics => ⟨panics.above, panics.unsent, panics.reached, panics.unpooled,
        panics.blockless⟩,
      fun panics => ⟨panics.above, panics.unsent, panics.reached, panics.unpooled,
        panics.blockless⟩⟩

theorem known_of_same_trace {after : Worker} (same : SameTrace worker after)
    (held : (after.reqStore.lookup preprep.requestDigest).isSome = true) :
    (worker.reqStore.lookup preprep.requestDigest).isSome = true := by
  rwa [← same.requests]

theorem recv_pre_prepare_traceless_iff (now : Instant) (worker : Worker) (preprep : PrePrepare) :
    Traceless worker (recvPrePrepare now worker preprep) ↔ prePrepareTraceless worker preprep := by
  by_cases admission : ∃ request, Admits worker preprep request
  · obtain ⟨request, admitted⟩ := admission
    have only : prePrepareTraceless worker preprep ↔
        (request.blockHeight ≤ worker.currentBlock →
          (worker.reqStore.lookup preprep.requestDigest).isSome = true) ∧
        (PanicsOnBlock worker preprep request →
          (worker.reqStore.lookup preprep.requestDigest).isSome = true ∧
            (SlotFree worker preprep request →
              slotOf worker ⟨preprep.view, request.reqID⟩ = some preprep)) := by
      constructor
      · intro quiet
        exact quiet request admitted
      · intro quiet other tests
        obtain rfl := Option.some.inj (admitted.carried.symm.trans tests.carried)
        exact quiet
    have heldAdmitted := admitted_worker_held worker preprep request
    rw [only, recv_pre_prepare_admitted now admitted]
    split_ifs with low
    · have calm : ¬PanicsOnBlock worker preprep request :=
        fun panics => absurd low (UInt64.not_le.mpr panics.above)
      rw [traceless_failed]
      constructor
      · intro same
        exact ⟨fun _ => known_of_same_trace same heldAdmitted, fun panics => absurd panics calm⟩
      · intro quiet
        rw [admitted_worker_known (quiet.1 low)]
        exact same_trace_refl worker
    · have headAdmitted : (admittedWorker worker preprep request).currentBlock =
          worker.currentBlock := by
        unfold admittedWorker
        split_ifs <;> rfl
      have above : (admittedWorker worker preprep request).currentBlock < request.blockHeight := by
        rw [headAdmitted]
        exact UInt64.not_le.mp low
      rcases certify_pre_prepare_cases now above heldAdmitted with
        ⟨calm, quiet⟩ | ⟨panics, effects, result⟩
      · rw [panics_on_block_admitted] at calm
        exact ⟨fun _ => ⟨fun onChain => absurd onChain low, fun panics => absurd panics calm⟩,
          fun _ => quiet worker⟩
      · rw [panics_on_block_admitted] at panics
        rw [result]
        refine (traceless_failed _ _ _ _).trans ?_
        constructor
        · intro same
          have known := known_of_same_trace same
            (by rw [tracked_worker_req_store]; exact heldAdmitted)
          rw [admitted_worker_known known, same_trace_tracked_worker] at same
          exact ⟨fun _ => known, fun _ => ⟨known, same⟩⟩
        · intro quiet
          obtain ⟨known, settled⟩ := quiet.2 panics
          rw [admitted_worker_known known, same_trace_tracked_worker]
          exact settled
  · have refused : ∀ request, ¬Admits worker preprep request :=
      fun request admitted => admission ⟨request, admitted⟩
    exact ⟨fun _ request admitted => absurd admitted (refused request),
      fun _ => recv_pre_prepare_unadmitted now refused⟩

end PrePrepares

section Votes

variable {worker : Worker}

theorem not_same_trace_modify {opened : Worker} {id : MsgID} {change : MsgCert → MsgCert}
    (same : certAt opened id = certAt worker id) (moved : change (certAt worker id) ≠ certAt worker id) :
    ¬SameTrace worker (modifyCert opened id change) := by
  intro kept
  apply moved
  have after := cert_at_modify_cert opened id id change
  rw [if_pos rfl, same] at after
  rw [← after]
  unfold certAt
  rw [kept.certs]

structure PrepareHeard (worker : Worker) (prep : Prepare) : Prop where
  current : inV worker prep.view = true
  ready : worker.ready = true
  fresh : ∀ p ∈ (certAt worker ⟨prep.view, prep.reqID⟩).prepare, p.sender ≠ prep.sender

structure PrepareWanted (worker : Worker) (prep : Prepare) (request : Request) : Prop where
  held : worker.reqStore.lookup prep.requestDigest = some request
  above : worker.currentBlock < request.blockHeight
  uncommitted : worker.commitStore.lookup request.blockHeight = none

/-- The vote completes the certificate, and no block can be found for it. -/
structure PrepareBlockless (worker : Worker) (prep : Prepare) (request : Request) : Prop where
  unsent : (certAt worker ⟨prep.view, prep.reqID⟩).sentCommit = false
  tracked : prePrepared worker prep.requestDigest prep.view prep.reqID = true
  enough : getQuorum worker ≤
    (((certAt worker ⟨prep.view, prep.reqID⟩).prepare.countP
      (matchesPrepare prep.requestDigest prep.view prep.reqID) : Nat) : Int) + 1
  blockless : selectBlock worker request.blockHeight request.blockHash request = none

/-- A Prepare leaves no trace unless it is refused with a certificate just
opened for it, or completes a certificate for which there is no block. -/
def prepareTraceless (worker : Worker) (prep : Prepare) : Prop :=
  PrepareHeard worker prep →
    ((∃ request, PrepareWanted worker prep request) ∨
      (worker.certStore.lookup ⟨prep.view, prep.reqID⟩).isSome = true) ∧
    ∀ request, PrepareWanted worker prep request → ¬PrepareBlockless worker prep request

theorem pre_prepared_congr {left right : Worker} (digest : String) (v reqID : UInt64)
    (slot : slotOf left ⟨v, reqID⟩ = slotOf right ⟨v, reqID⟩)
    (requests : left.reqStore = right.reqStore) :
    prePrepared left digest v reqID = prePrepared right digest v reqID := by
  unfold slotOf at slot
  rw [pre_prepared_eq, pre_prepared_eq, requests, slot]

theorem known_of_prepared {digest : String} {v reqID : UInt64}
    (reached : prepared worker digest v reqID = true) :
    (worker.certStore.lookup ⟨v, reqID⟩).isSome = true := by
  obtain ⟨preprep, slot, _⟩ := pre_prepared_slot (prepared_tally reached).1
  exact known_of_slot slot

def prepareAppended (worker : Worker) (prep : Prepare) : Worker :=
  modifyCert (getCert worker prep.view prep.reqID) ⟨prep.view, prep.reqID⟩ fun cert =>
    { cert with prepare := cert.prepare ++ [prep] }

theorem cert_at_prepare_appended (worker : Worker) (prep : Prepare) :
    certAt (prepareAppended worker prep) ⟨prep.view, prep.reqID⟩ =
      { certAt worker ⟨prep.view, prep.reqID⟩ with
        prepare := (certAt worker ⟨prep.view, prep.reqID⟩).prepare ++ [prep] } := by
  unfold prepareAppended
  rw [cert_at_modify_cert, if_pos rfl, cert_at_get_cert]

theorem prepared_after_append (worker : Worker) (prep : Prepare) :
    prepared (prepareAppended worker prep) prep.requestDigest prep.view prep.reqID = true ↔
      prePrepared worker prep.requestDigest prep.view prep.reqID = true ∧
        getQuorum worker ≤
          (((certAt worker ⟨prep.view, prep.reqID⟩).prepare.countP
            (matchesPrepare prep.requestDigest prep.view prep.reqID) : Nat) : Int) + 1 := by
  have slot : slotOf (prepareAppended worker prep) ⟨prep.view, prep.reqID⟩ =
      slotOf worker ⟨prep.view, prep.reqID⟩ := by
    unfold slotOf
    rw [cert_at_prepare_appended]
  have counts : matchesPrepare prep.requestDigest prep.view prep.reqID prep = true := by
    simp [matchesPrepare]
  have quorum : getQuorum (prepareAppended worker prep) = getQuorum worker := rfl
  rw [prepared_eq, Bool.and_eq_true, decide_eq_true_eq, quorum,
    pre_prepared_congr _ _ _ slot rfl, cert_at_prepare_appended, List.countP_append,
    List.countP_singleton, counts, if_pos rfl]
  push_cast
  rfl

theorem count_prepare_traceless_iff {prep : Prepare} {request : Request} (again : String)
    (transfer : List Effect) (wanted : PrepareWanted worker prep request) :
    Traceless worker (countPrepare (getCert worker prep.view prep.reqID) prep request again
        transfer) ↔ ¬PrepareBlockless worker prep request := by
  have flag : (certAt (prepareAppended worker prep) ⟨prep.view, prep.reqID⟩).sentCommit =
      (certAt worker ⟨prep.view, prep.reqID⟩).sentCommit := by
    rw [cert_at_prepare_appended]
  have countEq : countPrepare (getCert worker prep.view prep.reqID) prep request again transfer =
      if prepared (prepareAppended worker prep) prep.requestDigest prep.view prep.reqID &&
          !(certAt (prepareAppended worker prep) ⟨prep.view, prep.reqID⟩).sentCommit then
        reachPrepared (prepareAppended worker prep) prep request again transfer
      else done (prepareAppended worker prep) transfer := rfl
  rw [countEq, flag]
  split_ifs with due
  · rw [Bool.and_eq_true, Bool.not_eq_true', prepared_after_append] at due
    have above : ¬request.blockHeight ≤ (prepareAppended worker prep).currentBlock :=
      UInt64.not_le.mpr wanted.above
    have unsent : (prepareAppended worker prep).commitStore.lookup request.blockHeight = none :=
      wanted.uncommitted
    have select : selectBlock (prepareAppended worker prep) request.blockHeight request.blockHash
        request = selectBlock worker request.blockHeight request.blockHash request := rfl
    unfold reachPrepared
    rw [if_neg above, select]
    cases block : selectBlock worker request.blockHeight request.blockHash request with
    | none =>
        have grown : (certAt worker ⟨prep.view, prep.reqID⟩).prepare ++ [prep] ≠
            (certAt worker ⟨prep.view, prep.reqID⟩).prepare := by simp
        refine (traceless_failed _ _ _ _).trans (iff_of_false ?_ ?_)
        · exact not_same_trace_modify (cert_at_get_cert _ _ _ _)
            fun same => grown (congrArg MsgCert.prepare same)
        · exact not_not.mpr ⟨due.2, due.1.1, due.1.2, block⟩
    | some found =>
        simp only [unsent, Option.isSome_none, Bool.false_eq_true, if_false]
        refine iff_of_true (traceless_done _ _ _) ?_
        intro blockless
        rw [blockless.blockless] at block
        cases block
  · refine iff_of_true (traceless_done _ _ _) ?_
    intro blockless
    apply due
    rw [Bool.and_eq_true, Bool.not_eq_true', prepared_after_append]
    exact ⟨⟨blockless.tracked, blockless.enough⟩, blockless.unsent⟩

/-- A Prepare whose sender is in the certificate, or which arrives too early or
in another view, is turned away before anything is written. -/
theorem recv_prepare_unheard {prep : Prepare} (unheard : ¬PrepareHeard worker prep) :
    Traceless worker (recvPrepare worker prep) := by
  unfold recvPrepare
  split
  · exact traceless_unmoved _ _ _
  rename_i outside
  split
  · exact traceless_unmoved _ _ _
  rename_i unready
  dsimp only
  rw [cert_at_get_cert]
  have repeated : ((certAt worker ⟨prep.view, prep.reqID⟩).prepare.any fun prePrep =>
      prePrep.sender == prep.sender) = true := by
    by_contra fresh
    apply unheard
    refine ⟨by simpa using outside, by simpa using unready, ?_⟩
    simpa using fresh
  rw [if_pos repeated, get_cert_of_known]
  · exact traceless_unmoved _ _ _
  · apply known_of_cert_at
    intro empty
    simp [empty] at repeated

theorem recv_prepare_traceless_iff (worker : Worker) (prep : Prepare) :
    Traceless worker (recvPrepare worker prep) ↔ prepareTraceless worker prep := by
  by_cases heard : PrepareHeard worker prep
  · have current : ¬(!inV worker prep.view) = true := by simp [heard.current]
    have ready : ¬(!worker.ready) = true := by simp [heard.ready]
    have fresh : ¬((certAt worker ⟨prep.view, prep.reqID⟩).prepare.any fun prePrep =>
        prePrep.sender == prep.sender) = true := by simpa using heard.fresh
    have only : prepareTraceless worker prep ↔
        ((∃ request, PrepareWanted worker prep request) ∨
          (worker.certStore.lookup ⟨prep.view, prep.reqID⟩).isSome = true) ∧
        ∀ request, PrepareWanted worker prep request → ¬PrepareBlockless worker prep request :=
      ⟨fun quiet => quiet heard, fun quiet _ => quiet⟩
    have refusal : ∀ text, (∀ request, ¬PrepareWanted worker prep request) →
        (Traceless worker (failed (getCert worker prep.view prep.reqID) text []) ↔
          prepareTraceless worker prep) := by
      intro text unwanted
      rw [traceless_failed, same_trace_get_cert, only]
      exact ⟨fun known => ⟨.inr known, fun request wanted => absurd wanted (unwanted request)⟩,
        fun quiet => quiet.1.resolve_left fun ⟨request, wanted⟩ => unwanted request wanted⟩
    have store : getRequestFromStore (getCert worker prep.view prep.reqID) prep.requestDigest =
        worker.reqStore.lookup prep.requestDigest := rfl
    unfold recvPrepare
    rw [if_neg current, if_neg ready]
    dsimp only
    rw [cert_at_get_cert, if_neg fresh, store]
    cases held : worker.reqStore.lookup prep.requestDigest with
    | none =>
        apply refusal
        intro request wanted
        rw [wanted.held] at held
        cases held
    | some request =>
        have same : ∀ other, PrepareWanted worker prep other → other = request := by
          intro other wanted
          rw [wanted.held] at held
          exact Option.some.inj held
        dsimp only
        split_ifs with low sent done
        · apply refusal
          intro other wanted
          obtain rfl := same other wanted
          exact absurd low (UInt64.not_le.mpr wanted.above)
        · apply refusal
          intro other wanted
          obtain rfl := same other wanted
          have recorded : (worker.commitStore.lookup other.blockHeight).isSome = true := sent
          simp [wanted.uncommitted] at recorded
        all_goals
          have wanted : PrepareWanted worker prep request :=
            ⟨held, UInt64.not_le.mp low, by simpa [getCert] using sent⟩
        · rw [Bool.and_eq_true] at done
          have tally : prepared (getCert worker prep.view prep.reqID) prep.requestDigest prep.view
              prep.reqID = prepared worker prep.requestDigest prep.view prep.reqID := by
            rw [prepared_eq, prepared_eq, cert_at_get_cert,
              pre_prepared_congr _ _ _ (slot_of_get_cert _ _ _ _) rfl]
            rfl
          have known := known_of_prepared (tally ▸ done.1)
          rw [get_cert_of_known known, only]
          refine iff_of_true (traceless_unmoved _ _ _) ⟨.inl ⟨request, wanted⟩, ?_⟩
          intro other _ blockless
          rw [blockless.unsent] at done
          exact absurd done.2 (by simp)
        · rw [count_prepare_traceless_iff _ _ wanted, only]
          constructor
          · intro calm
            refine ⟨.inl ⟨request, wanted⟩, fun other otherWanted => ?_⟩
            rw [same other otherWanted]
            exact calm
          · intro quiet
            exact quiet.2 request wanted
  · exact iff_of_true (recv_prepare_unheard heard) fun known => absurd known heard

def certWithCommit (cert : MsgCert) (commit : Commit) : MsgCert :=
  { cert with commit := cert.commit ++ [commit] }

structure CommitHeard (worker : Worker) (commit : Commit) : Prop where
  current : inV worker commit.view = true
  ready : worker.ready = true
  above : worker.currentBlock < commit.vr.blockHeight
  fresh : ∀ c ∈ (certAt worker ⟨commit.view, commit.reqID⟩).commit, c.sender ≠ commit.sender

/-- A Commit leaves no trace unless it completes a certificate whose digest has
no request; that digest can only be the empty one. -/
def commitTraceless (worker : Worker) (commit : Commit) : Prop :=
  CommitHeard worker commit →
    prepared worker commit.requestDigest commit.view commit.reqID = true →
    getQuorum worker ≤
      ((committedVotes (certWithCommit (certAt worker ⟨commit.view, commit.reqID⟩) commit)
        commit.view commit.reqID).length : Int) →
    (worker.reqStore.lookup commit.requestDigest).isSome = true

theorem committed_after_append (worker : Worker) (commit : Commit) :
    committed (withCommit worker commit) commit.requestDigest commit.view commit.reqID = true ↔
      prepared worker commit.requestDigest commit.view commit.reqID = true ∧
        getQuorum worker ≤
          ((committedVotes (certWithCommit (certAt worker ⟨commit.view, commit.reqID⟩) commit)
            commit.view commit.reqID).length : Int) := by
  have slot : slotOf (withCommit worker commit) ⟨commit.view, commit.reqID⟩ =
      slotOf worker ⟨commit.view, commit.reqID⟩ := by
    unfold slotOf
    rw [cert_at_with_commit]
  have quorum : getQuorum (withCommit worker commit) = getQuorum worker := rfl
  have tally : prepared (withCommit worker commit) commit.requestDigest commit.view
      commit.reqID = prepared worker commit.requestDigest commit.view commit.reqID := by
    rw [prepared_eq, prepared_eq, cert_at_with_commit, pre_prepared_congr _ _ _ slot rfl, quorum]
  rw [committed_eq, Bool.and_eq_true, decide_eq_true_eq, quorum, tally, cert_at_with_commit]
  rfl

theorem recv_commit_unheard {commit : Commit} (unheard : ¬CommitHeard worker commit) :
    Traceless worker (recvCommit worker commit) := by
  unfold recvCommit
  split
  · exact traceless_unmoved _ _ _
  rename_i outside
  split
  · exact traceless_unmoved _ _ _
  rename_i unready
  split
  · exact traceless_unmoved _ _ _
  rename_i low
  dsimp only
  rw [cert_at_get_cert]
  have repeated : ((certAt worker ⟨commit.view, commit.reqID⟩).commit.any fun prevCommit =>
      prevCommit.sender == commit.sender) = true := by
    by_contra fresh
    apply unheard
    refine ⟨by simpa using outside, by simpa using unready, UInt64.not_le.mp low, ?_⟩
    simpa using fresh
  rw [if_pos repeated, get_cert_of_known]
  · exact traceless_unmoved _ _ _
  · apply known_of_cert_at
    intro empty
    simp [empty] at repeated

/-- Past the append the only error is the missing request. -/
theorem reach_committed_traceless_iff {commit : Commit} (heard : CommitHeard worker commit) :
    Traceless worker (reachCommitted (withCommit worker commit) commit) ↔
      (worker.reqStore.lookup commit.requestDigest).isSome = true := by
  have ready : ¬(!(withCommit worker commit).ready) = true := by
    have same : (withCommit worker commit).ready = worker.ready := rfl
    simp [same, heard.ready]
  have above : (withCommit worker commit).currentBlock < commit.vr.blockHeight := heard.above
  have store : getRequestFromStore (withCommit worker commit) commit.requestDigest =
      worker.reqStore.lookup commit.requestDigest := rfl
  unfold reachCommitted
  dsimp only
  rw [store]
  cases held : worker.reqStore.lookup commit.requestDigest with
  | none =>
      have grown : (certAt worker ⟨commit.view, commit.reqID⟩).commit ++ [commit] ≠
          (certAt worker ⟨commit.view, commit.reqID⟩).commit := by simp
      refine (traceless_failed _ _ _ _).trans (iff_of_false ?_ (by simp))
      unfold withCommit addCommit
      exact not_same_trace_modify (cert_at_get_cert _ _ _ _)
        fun same => grown (congrArg MsgCert.commit same)
  | some request =>
      refine iff_of_true ?_ rfl
      cases getValidResFromCommit (withCommit worker commit)
          (certAt (withCommit worker commit) ⟨commit.view, commit.reqID⟩) with
      | possitive =>
          dsimp only
          unfold decidePositive
          rw [if_neg ready, if_pos above]
          exact traceless_done _ _ _
      | futurePossitive => exact traceless_done _ _ _
      | negative => exact traceless_done _ _ _

theorem recv_commit_traceless_iff (worker : Worker) (commit : Commit) :
    Traceless worker (recvCommit worker commit) ↔ commitTraceless worker commit := by
  by_cases heard : CommitHeard worker commit
  · have current : ¬(!inV worker commit.view) = true := by simp [heard.current]
    have ready : ¬(!worker.ready) = true := by simp [heard.ready]
    have low : ¬commit.vr.blockHeight ≤ worker.currentBlock := UInt64.not_le.mpr heard.above
    have fresh : ¬((certAt worker ⟨commit.view, commit.reqID⟩).commit.any fun prevCommit =>
        prevCommit.sender == commit.sender) = true := by simpa using heard.fresh
    have result : recvCommit worker commit =
        if committed (withCommit worker commit) commit.requestDigest commit.view
            commit.reqID then reachCommitted (withCommit worker commit) commit
        else done (withCommit worker commit)
          (sendConMsgTransfer3 (withCommit worker commit) commit) := by
      unfold recvCommit
      rw [if_neg current, if_neg ready, if_neg low]
      dsimp only
      rw [cert_at_get_cert, if_neg fresh]
      rfl
    rw [result]
    split_ifs with reached
    · rw [reach_committed_traceless_iff heard]
      rw [committed_after_append] at reached
      exact ⟨fun known _ _ _ => known, fun quiet => quiet heard reached.1 reached.2⟩
    · refine iff_of_true (traceless_done _ _ _) ?_
      intro _ ready enough
      exact absurd ((committed_after_append worker commit).mpr ⟨ready, enough⟩) reached
  · exact iff_of_true (recv_commit_unheard heard) fun known => absurd known heard

end Votes

def errorBeforeWrite (worker : Worker) : Message → Prop
  | .request request => requestTraceless worker request
  | .prePrepare preprep => prePrepareTraceless worker preprep
  | .prepare prep => prepareTraceless worker prep
  | .commit commit => commitTraceless worker commit

/-- For every worker and every message: an error leaves the consensus state as
it was exactly when it comes before the first write. -/
theorem rejected_message_leaves_no_trace_iff (now : Instant) (worker : Worker) (msg : Message) :
    (∀ text, (runCall now worker (messageCall msg)).result = .err text →
      SameTrace worker (runCall now worker (messageCall msg)).worker) ↔
      errorBeforeWrite worker msg := by
  cases msg with
  | request request => exact recv_request_traceless_iff now worker request
  | prePrepare preprep => exact recv_pre_prepare_traceless_iff now worker preprep
  | prepare prep => exact recv_prepare_traceless_iff worker prep
  | commit commit => exact recv_commit_traceless_iff worker commit

/-- On a node that has just started: a Request of a stranger raises `LastReqID`,
a PrePrepare for a height on the chain leaves its request behind, and a Prepare
for an unknown request leaves an empty certificate. -/
theorem rejected_messages_leave_traces :
    ((runCall 0 (startWorker "b" "a" 4)
        (messageCall (.request (leaderRequest "c" 100 (plainBlock 2 0))))).result =
          .err "req has wrong leader or view  A15" ∧
      ¬SameTrace (startWorker "b" "a" 4) (runCall 0 (startWorker "b" "a" 4)
        (messageCall (.request (leaderRequest "c" 100 (plainBlock 2 0))))).worker) ∧
    ((runCall 0 (startWorker "b" "a" 4) (messageCall (.prePrepare
        (prePrepareFor "c" 5 "5" (leaderRequest "a" 5 (plainBlock 1 0)))))).result =
          .err "preprep.Request block already onchain" ∧
      ¬SameTrace (startWorker "b" "a" 4) (runCall 0 (startWorker "b" "a" 4)
        (messageCall (.prePrepare
          (prePrepareFor "c" 5 "5" (leaderRequest "a" 5 (plainBlock 1 0)))))).worker) ∧
    ((runCall 0 (startWorker "b" "a" 4) (messageCall (.prepare (voteFor "c" 9 "9")))).result =
          .err "A34  do not have req" ∧
      ¬SameTrace (startWorker "b" "a" 4) (runCall 0 (startWorker "b" "a" 4)
        (messageCall (.prepare (voteFor "c" 9 "9")))).worker) := by
  refine ⟨⟨by decide +kernel, ?_⟩, ⟨by decide +kernel, ?_⟩, by decide +kernel, ?_⟩
  · intro same
    exact absurd same.lastReqID (by decide +kernel)
  · intro same
    exact absurd (same.requests "5") (by decide +kernel)
  · intro same
    exact absurd (same.certs ⟨1, 9⟩) (by decide +kernel)

end PbftBlock.RejectedMessages
