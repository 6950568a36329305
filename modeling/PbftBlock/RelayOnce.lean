import PbftBlock.PrepareDigests

/-!
# What a node relays

A message a node has accepted is relayed to all peers, who do the same. What
stops the flood is the certificate: `sentPrepare` for the PrePrepare, the sender
in the list of Prepares or of Commits for the votes. While a certificate exists
a mark in it is never taken back, and each relay sets a mark that was not set.
-/

namespace PbftBlock.RelayOnce

open PbftBlock.ConsensusMessages PbftBlock.ConsensusWorker PbftBlock.ConsensusBasics
open PbftBlock.ConsensusHandlers PbftBlock.HandlerActions PbftBlock.ActionChanges
open PbftBlock.NodeMachine PbftBlock.CommitOncePerHeight PbftBlock.PrepareDigests
open PbftBlock.Library.FiniteMaps PbftBlock.Library.GuardedRuns

set_option autoImplicit false

section Slots

/-- What one certificate allows to be relayed once: its PrePrepare, and one
Prepare and one Commit of each sender. -/
inductive RelaySlot where
  | prePrepare
  | prepare (sender : String)
  | commit (sender : String)
deriving DecidableEq

/-- The certificate and the slot a message belongs to: a PrePrepare goes by its
view and the number of its request, a vote by its own view and number. -/
def relaySlot : Message → Option (MsgID × RelaySlot)
  | .request _ => none
  | .prePrepare preprep => preprep.request.map fun request =>
      (⟨preprep.view, request.reqID⟩, .prePrepare)
  | .prepare prep => some (⟨prep.view, prep.reqID⟩, .prepare prep.sender)
  | .commit commit => some (⟨commit.view, commit.reqID⟩, .commit commit.sender)

def relayed : Effect → Option Message
  | .transfer msg => some msg.msg
  | _ => none

def relays (effects : List Effect) : List Message := effects.filterMap relayed

def relayCount (id : MsgID) (slot : RelaySlot) (effects : List Effect) : Nat :=
  (relays effects).countP fun msg => relaySlot msg == some (id, slot)

theorem relays_append (early late : List Effect) :
    relays (early ++ late) = relays early ++ relays late :=
  List.filterMap_append

theorem relay_count_append (id : MsgID) (slot : RelaySlot) (early late : List Effect) :
    relayCount id slot (early ++ late) = relayCount id slot early + relayCount id slot late := by
  unfold relayCount
  rw [relays_append, List.countP_append]

def marked (cert : MsgCert) : RelaySlot → Bool
  | .prePrepare => cert.sentPrepare
  | .prepare sender => cert.prepare.any fun prep => prep.sender == sender
  | .commit sender => cert.commit.any fun commit => commit.sender == sender

def MarksGrow (first worker : Worker) : Prop :=
  ∀ id slot, marked (certAt first id) slot = true → marked (certAt worker id) slot = true

def SameMarks (first worker : Worker) : Prop :=
  ∀ id slot, marked (certAt worker id) slot = marked (certAt first id) slot

theorem same_marks_of_certs {first worker : Worker}
    (same : ∀ id, certAt worker id = certAt first id) : SameMarks first worker :=
  fun id slot => by rw [same id]

theorem same_marks_trans {first middle worker : Worker} (early : SameMarks first middle)
    (late : SameMarks middle worker) : SameMarks first worker :=
  fun id slot => (late id slot).trans (early id slot)

theorem marks_grow_of_same {first worker : Worker} (same : SameMarks first worker) :
    MarksGrow first worker := by
  intro id slot mark
  rw [same id slot]
  exact mark

theorem marks_grow_of_store {first worker : Worker} (same : worker.certStore = first.certStore) :
    MarksGrow first worker := by
  intro id slot mark
  rw [certAt, same]
  exact mark

theorem marks_grow_trans {first middle worker : Worker} (early : MarksGrow first middle)
    (late : MarksGrow middle worker) : MarksGrow first worker :=
  fun id slot mark => late id slot (early id slot mark)

theorem same_marks_modify (worker : Worker) (key : MsgID) {change : MsgCert → MsgCert}
    (same : ∀ cert slot, marked (change cert) slot = marked cert slot) :
    SameMarks worker (modifyCert worker key change) := by
  intro id slot
  rw [cert_at_modify_cert]
  split_ifs with target
  · rw [same, target]
  · rfl

theorem marks_grow_modify (worker : Worker) (key : MsgID) {change : MsgCert → MsgCert}
    (grow : ∀ cert slot, marked cert slot = true → marked (change cert) slot = true) :
    MarksGrow worker (modifyCert worker key change) := by
  intro id slot mark
  rw [cert_at_modify_cert]
  split_ifs with target
  · subst target
    exact grow _ slot mark
  · exact mark

theorem marked_prepare_sent (cert : MsgCert) (slot : RelaySlot) (mark : marked cert slot = true) :
    marked { cert with sentPrepare := true } slot = true := by
  cases slot with
  | prePrepare => rfl
  | prepare sender => exact mark
  | commit sender => exact mark

theorem marked_prepare_added (prep : Prepare) (cert : MsgCert) (slot : RelaySlot)
    (mark : marked cert slot = true) :
    marked { cert with prepare := cert.prepare ++ [prep] } slot = true := by
  cases slot with
  | prePrepare => exact mark
  | prepare sender =>
      dsimp only [marked] at *
      rw [List.any_append, mark, Bool.true_or]
  | commit sender => exact mark

theorem marked_commit_added (commit : Commit) (cert : MsgCert) (slot : RelaySlot)
    (mark : marked cert slot = true) :
    marked { cert with commit := cert.commit ++ [commit] } slot = true := by
  cases slot with
  | prePrepare => exact mark
  | prepare sender => exact mark
  | commit sender =>
      dsimp only [marked] at *
      rw [List.any_append, mark, Bool.true_or]

end Slots

section Calls

/-- A call takes no mark back from a certificate that it leaves in the store,
and relays at most one message, for a slot that had no mark and has it now
unless the certificate is gone. -/
structure RelaysFresh (first : Worker) (outcome : Outcome) : Prop where
  kept : ∀ id slot, (outcome.worker.certStore.lookup id).isSome = true →
    marked (certAt first id) slot = true → marked (certAt outcome.worker id) slot = true
  fresh : relays outcome.effects = [] ∨ ∃ msg id slot, relays outcome.effects = [msg] ∧
    relaySlot msg = some (id, slot) ∧ marked (certAt first id) slot = false ∧
    ((outcome.worker.certStore.lookup id).isSome = true →
      marked (certAt outcome.worker id) slot = true)

variable {first worker : Worker} {effects : List Effect}

theorem relays_fresh_silent (result : Result) (grow : MarksGrow first worker)
    (silent : relays effects = []) : RelaysFresh first ⟨result, worker, effects⟩ :=
  ⟨fun id slot _ mark => grow id slot mark, .inl silent⟩

theorem relays_fresh_transfer (result : Result) {sender : Worker} {name : String} {msg : Message}
    (effects : List Effect) (id : MsgID) (slot : RelaySlot) (silent : relays effects = [])
    (belongs : relaySlot msg = some (id, slot)) (unmarked : marked (certAt first id) slot = false)
    (kept : ∀ id slot, (worker.certStore.lookup id).isSome = true →
      marked (certAt first id) slot = true → marked (certAt worker id) slot = true)
    (now : (worker.certStore.lookup id).isSome = true → marked (certAt worker id) slot = true) :
    RelaysFresh first ⟨result, worker, effects ++ sendConMsgTransfer sender name msg⟩ := by
  refine ⟨kept, ?_⟩
  rw [relays_append, silent, List.nil_append]
  unfold sendConMsgTransfer
  split_ifs
  · exact .inr ⟨msg, id, slot, rfl, belongs, unmarked, now⟩
  · exact .inl rfl

section PrePrepares

variable {preprep : PrePrepare} {request : Request}

theorem answer_pre_prepare_fresh (carried : preprep.request = some request)
    (same : SameMarks first worker) (silent : relays effects = []) :
    RelaysFresh first (answerPrePrepare worker preprep request effects) := by
  unfold answerPrePrepare
  dsimp only
  split_ifs with due
  · rw [Bool.and_eq_true, Bool.not_eq_true'] at due
    have grow : MarksGrow first (modifyCert worker ⟨preprep.view, request.reqID⟩ fun cert =>
        { cert with sentPrepare := true }) :=
      marks_grow_trans (marks_grow_of_same same) (marks_grow_modify _ _ marked_prepare_sent)
    refine relays_fresh_transfer .ok _ ⟨preprep.view, request.reqID⟩ .prePrepare
      ?_ ?_ ?_ (fun id slot _ mark => grow id slot mark) ?_
    · rw [relays_append, silent]
      rfl
    · simp [relaySlot, carried]
    · rw [← same]
      exact due.2
    · intro _
      rw [cert_at_modify_cert, if_pos rfl]
      rfl
  · exact relays_fresh_silent .ok (marks_grow_of_same same) silent

theorem track_pre_prepare_silent (worker : Worker) (preprep : PrePrepare) (request : Request) :
    SameMarks worker (trackPrePrepare worker preprep request).1 ∧
      relays (trackPrePrepare worker preprep request).2 = [] := by
  have tracked : SameMarks worker (modifyCert worker ⟨preprep.view, request.reqID⟩ fun cert =>
      { cert with prePrepare := some preprep }) :=
    same_marks_modify _ _ fun cert slot => by cases slot <;> rfl
  unfold trackPrePrepare
  dsimp only
  split_ifs
  · exact ⟨fun _ _ => rfl, rfl⟩
  · cases (certAt (modifyCert worker ⟨preprep.view, request.reqID⟩ fun cert =>
        { cert with prePrepare := some preprep }) ⟨preprep.view, request.reqID⟩).prepare with
    | nil => exact ⟨tracked, rfl⟩
    | cons head rest => exact ⟨tracked, rfl⟩
  · exact ⟨tracked, rfl⟩

theorem pool_pre_prepare_fresh (now : Instant) (carried : preprep.request = some request)
    (same : SameMarks first worker) (silent : relays effects = []) :
    RelaysFresh first (poolPrePrepare now worker preprep request effects) := by
  unfold poolPrePrepare
  cases getBlockFromPossibleValidBlock worker request.blockHeight request.blockHash with
  | some _ => exact answer_pre_prepare_fresh carried same silent
  | none =>
      cases request.realblock with
      | none => exact relays_fresh_silent _ (marks_grow_of_same same) silent
      | some block => exact answer_pre_prepare_fresh carried same silent

theorem certify_pre_prepare_fresh (now : Instant) (carried : preprep.request = some request)
    (same : SameMarks first worker) :
    RelaysFresh first (certifyPrePrepare now worker preprep request) := by
  have opened : SameMarks first (getCert worker preprep.view request.reqID) :=
    same_marks_trans same (same_marks_of_certs (cert_at_get_cert worker _ _))
  obtain ⟨marks, silent⟩ :=
    track_pre_prepare_silent (getCert worker preprep.view request.reqID) preprep request
  have tracked := same_marks_trans opened marks
  unfold certifyPrePrepare checkPrePrepareDigest
  dsimp only
  split_ifs
  · exact relays_fresh_silent .ok (marks_grow_of_same opened) rfl
  · exact relays_fresh_silent .ok (marks_grow_of_same tracked) silent
  · exact pool_pre_prepare_fresh now carried tracked silent
  · exact relays_fresh_silent .ok (marks_grow_of_same tracked) silent
  · exact pool_pre_prepare_fresh now carried tracked silent

theorem recv_pre_prepare_fresh (now : Instant) (first : Worker) (preprep : PrePrepare) :
    RelaysFresh first (recvPrePrepare now first preprep) := by
  have unchanged : MarksGrow first first := fun _ _ mark => mark
  unfold recvPrePrepare
  split_ifs
  · exact relays_fresh_silent .ok unchanged rfl
  · exact relays_fresh_silent _ unchanged rfl
  cases carried : preprep.request with
  | none => exact relays_fresh_silent _ unchanged rfl
  | some request =>
      dsimp only
      split_ifs
      · exact relays_fresh_silent _ unchanged rfl
      · exact relays_fresh_silent _ unchanged rfl
      · exact certify_pre_prepare_fresh now carried fun _ _ => rfl
      · exact relays_fresh_silent _ unchanged rfl
      · exact certify_pre_prepare_fresh now carried fun _ _ => rfl

end PrePrepares

section Prepares

variable {prep : Prepare} {request : Request}

/-- The Prepare is in the list before anything is relayed, and whatever the
handler does afterwards leaves it there. -/
theorem prepare_added_grows (prep : Prepare) (same : SameMarks first worker) :
    MarksGrow first (modifyCert worker ⟨prep.view, prep.reqID⟩ fun cert =>
      { cert with prepare := cert.prepare ++ [prep] }) :=
  marks_grow_trans (marks_grow_of_same same) (marks_grow_modify _ _ (marked_prepare_added prep))

theorem marked_own_prepare (worker : Worker) (prep : Prepare) :
    marked (certAt (modifyCert worker ⟨prep.view, prep.reqID⟩ fun cert =>
      { cert with prepare := cert.prepare ++ [prep] }) ⟨prep.view, prep.reqID⟩)
      (.prepare prep.sender) = true := by
  rw [cert_at_modify_cert, if_pos rfl]
  simp [marked]

theorem reach_prepared_fresh (again : String) {transfer : List Effect}
    (grow : MarksGrow first worker)
    (ending : ∀ after effects, MarksGrow worker after → relays effects = [] →
      RelaysFresh first ⟨.ok, after, effects ++ transfer⟩) :
    RelaysFresh first (reachPrepared worker prep request again transfer) := by
  unfold reachPrepared
  split_ifs
  · exact relays_fresh_silent _ grow rfl
  cases selectBlock worker request.blockHeight request.blockHash request with
  | none => exact relays_fresh_silent _ grow rfl
  | some block =>
      dsimp only
      split_ifs
      · exact relays_fresh_silent _ grow rfl
      · apply ending
        · have recorded : SameMarks worker (recordCommit worker request) := fun _ _ => rfl
          refine marks_grow_trans (marks_grow_of_same recorded) (marks_grow_of_same ?_)
          exact same_marks_modify _ _ fun cert slot => by cases slot <;> rfl
        · rfl

theorem count_prepare_fresh (again : String) (same : SameMarks first worker)
    {transfer : List Effect}
    (relayed : transfer = [] ∨
      transfer = sendConMsgTransfer worker prep.sender (.prepare prep) ∧
        marked (certAt first ⟨prep.view, prep.reqID⟩) (.prepare prep.sender) = false) :
    RelaysFresh first (countPrepare worker prep request again transfer) := by
  have grow := prepare_added_grows prep same
  have own := marked_own_prepare worker prep
  -- the two exits that relay differ in the state they leave and in what was posted
  have ending : ∀ after effects, MarksGrow (modifyCert worker ⟨prep.view, prep.reqID⟩ fun cert =>
      { cert with prepare := cert.prepare ++ [prep] }) after → relays effects = [] →
      RelaysFresh first ⟨.ok, after, effects ++ transfer⟩ := by
    intro after effects later silent
    rcases relayed with none | ⟨transferred, unmarked⟩
    · refine relays_fresh_silent .ok (marks_grow_trans grow later) ?_
      rw [relays_append, silent, none]
      rfl
    · rw [transferred]
      exact relays_fresh_transfer .ok _ ⟨prep.view, prep.reqID⟩ (.prepare prep.sender) silent rfl
        unmarked (fun id slot _ mark => marks_grow_trans grow later id slot mark)
        fun _ => later _ _ own
  unfold countPrepare
  dsimp only
  split_ifs
  · exact reach_prepared_fresh again grow ending
  · exact ending _ [] (fun _ _ mark => mark) rfl

theorem opened_marks (first : Worker) (v reqID : UInt64) :
    SameMarks first (getCert first v reqID) :=
  same_marks_of_certs (cert_at_get_cert first v reqID)

theorem recv_prepare_fresh (first : Worker) (prep : Prepare) :
    RelaysFresh first (recvPrepare first prep) := by
  have opened := opened_marks first prep.view prep.reqID
  have grow := marks_grow_of_same opened
  unfold recvPrepare
  dsimp only
  split
  · exact relays_fresh_silent _ (fun _ _ mark => mark) rfl
  split
  · exact relays_fresh_silent _ (fun _ _ mark => mark) rfl
  split
  · exact relays_fresh_silent _ grow rfl
  rename_i fresh
  cases getRequestFromStore (getCert first prep.view prep.reqID) prep.requestDigest with
  | none => exact relays_fresh_silent _ grow rfl
  | some request =>
      dsimp only
      split_ifs
      · exact relays_fresh_silent _ grow rfl
      · exact relays_fresh_silent _ grow rfl
      · exact relays_fresh_silent _ grow rfl
      · refine count_prepare_fresh _ opened (.inr ⟨rfl, ?_⟩)
        rw [← opened]
        exact Bool.eq_false_of_not_eq_true fresh

/-- The compensation path appends a second time, but does not relay a second
time. -/
theorem recv_prepare_not_transfer_fresh (first : Worker) (prep : Prepare) :
    RelaysFresh first (recvPrepareNotTransfer first prep) := by
  have opened := opened_marks first prep.view prep.reqID
  have grow := marks_grow_of_same opened
  unfold recvPrepareNotTransfer
  dsimp only
  split
  · exact relays_fresh_silent _ (fun _ _ mark => mark) rfl
  split
  · exact relays_fresh_silent _ (fun _ _ mark => mark) rfl
  cases getRequestFromStore (getCert first prep.view prep.reqID) prep.requestDigest with
  | none => exact relays_fresh_silent _ grow rfl
  | some request =>
      dsimp only
      split_ifs with _ _ _ recved
      · exact relays_fresh_silent _ grow rfl
      · exact relays_fresh_silent _ grow rfl
      · exact relays_fresh_silent _ grow rfl
      · exact count_prepare_fresh _ opened (.inl rfl)
      · refine count_prepare_fresh _ opened (.inr ⟨rfl, ?_⟩)
        rw [← opened]
        exact Bool.eq_false_of_not_eq_true recved

end Prepares

section Commits

theorem remove_old_keeps (worker : Worker) (reqID : UInt64) (id : MsgID) (slot : RelaySlot)
    (left : ((removeOldConMsg worker reqID).certStore.lookup id).isSome = true)
    (mark : marked (certAt worker id) slot = true) :
    marked (certAt (removeOldConMsg worker reqID) id) slot = true := by
  obtain ⟨cert, present⟩ := Option.isSome_iff_exists.mp left
  obtain ⟨stored, _⟩ := lookup_retain_some present
  rw [cert_at_of_lookup present, ← cert_at_of_lookup stored]
  exact mark

theorem reach_committed_fresh {commit : Commit} (grow : MarksGrow first worker)
    (own : marked (certAt worker ⟨commit.view, commit.reqID⟩) (.commit commit.sender) = true)
    (unmarked : marked (certAt first ⟨commit.view, commit.reqID⟩) (.commit commit.sender) =
      false) :
    RelaysFresh first (reachCommitted worker commit) := by
  -- a removal keeps the marks of what it leaves, so both verdicts end alike
  have ending : ∀ effects after, relays effects = [] →
      (∀ id slot, (after.certStore.lookup id).isSome = true →
        marked (certAt worker id) slot = true → marked (certAt after id) slot = true) →
      RelaysFresh first ⟨.ok, after, effects ++ sendConMsgTransfer3 after commit⟩ := by
    intro effects after silent kept
    exact relays_fresh_transfer .ok _ ⟨commit.view, commit.reqID⟩ (.commit commit.sender) silent rfl
      unmarked (fun id slot left mark => kept id slot left (grow id slot mark))
      fun left => kept _ _ left own
  unfold reachCommitted
  dsimp only
  cases getRequestFromStore worker commit.requestDigest with
  | none => exact relays_fresh_silent _ grow rfl
  | some request =>
      cases getValidResFromCommit worker (certAt worker ⟨commit.view, commit.reqID⟩) with
      | possitive =>
          dsimp only
          unfold decidePositive
          dsimp only
          split_ifs
          · exact relays_fresh_silent _ grow rfl
          · exact ending _ _ rfl fun id slot left mark =>
              remove_old_keeps { worker with currentBlock := worker.currentBlock + 1 }
                commit.reqID id slot left mark
          · exact relays_fresh_silent _ grow rfl
      | futurePossitive => exact ending [] _ rfl fun _ _ _ mark => mark
      | negative =>
          exact ending _ _ rfl fun id slot left mark =>
            remove_old_keeps worker commit.reqID id slot left mark

theorem recv_commit_fresh (first : Worker) (commit : Commit) :
    RelaysFresh first (recvCommit first commit) := by
  have opened := opened_marks first commit.view commit.reqID
  have grow := marks_grow_of_same opened
  have added : MarksGrow first (addCommit (getCert first commit.view commit.reqID) commit) :=
    marks_grow_trans grow (marks_grow_modify _ _ (marked_commit_added commit))
  have own : marked (certAt (addCommit (getCert first commit.view commit.reqID) commit)
      ⟨commit.view, commit.reqID⟩) (.commit commit.sender) = true := by
    unfold addCommit
    rw [cert_at_modify_cert, if_pos rfl]
    simp [marked]
  unfold recvCommit
  dsimp only
  split_ifs with _ _ _ repeated
  · exact relays_fresh_silent _ (fun _ _ mark => mark) rfl
  · exact relays_fresh_silent _ (fun _ _ mark => mark) rfl
  · exact relays_fresh_silent _ (fun _ _ mark => mark) rfl
  · exact relays_fresh_silent _ grow rfl
  all_goals
    have unmarked : marked (certAt first ⟨commit.view, commit.reqID⟩) (.commit commit.sender) =
        false := by
      rw [← opened]
      exact Bool.eq_false_of_not_eq_true repeated
  · exact reach_committed_fresh added own unmarked
  · exact relays_fresh_transfer .ok [] ⟨commit.view, commit.reqID⟩ (.commit commit.sender) rfl rfl
      unmarked (fun id slot _ mark => added id slot mark) fun _ => own

end Commits

theorem recv_request_fresh (now : Instant) (first : Worker) (request : Request) :
    RelaysFresh first (recvRequest now first request) := by
  have unchanged : MarksGrow first first := fun _ _ mark => mark
  unfold recvRequest
  dsimp only
  split_ifs
  · exact relays_fresh_silent _ unchanged rfl
  · exact relays_fresh_silent _ unchanged rfl
  · exact relays_fresh_silent _ unchanged rfl
  · exact relays_fresh_silent _ unchanged rfl
  · cases request.realblock with
    | none => exact relays_fresh_silent _ unchanged rfl
    | some block =>
        refine relays_fresh_silent _ (marks_grow_of_same ?_) rfl
        refine same_marks_trans (opened_marks _ request.view request.reqID) ?_
        exact same_marks_modify _ _ fun cert slot => by cases slot <;> rfl
  · exact relays_fresh_silent _ unchanged rfl

theorem send_request_fresh (first : Worker) (raaaa : Raaaa) :
    RelaysFresh first (sendRequest first raaaa) := by
  unfold sendRequest
  dsimp only
  cases raaaa.block with
  | none => exact relays_fresh_silent _ (fun _ _ mark => mark) rfl
  | some block =>
      dsimp only
      split_ifs <;> exact relays_fresh_silent _ (fun _ _ mark => mark) rfl

theorem recv_checkpoint_fresh (first : Worker) (chkpt : Checkpoint) :
    RelaysFresh first (recvCheckpoint first chkpt) := by
  obtain ⟨_, _, _, _, _, changed⟩ := recv_checkpoint_frame first chkpt
  have store : (recvCheckpoint first chkpt).worker.certStore = first.certStore := by
    rw [changed]
  refine ⟨fun id slot _ mark => marks_grow_of_store store id slot mark, .inl ?_⟩
  rw [recv_checkpoint_silent]
  rfl

theorem run_call_fresh (now : Instant) (first : Worker) (call : Call) :
    RelaysFresh first (runCall now first call) := by
  cases call with
  | sendRequest raaaa => exact send_request_fresh first raaaa
  | recvRequest request => exact recv_request_fresh now first request
  | recvPrePrepare preprep => exact recv_pre_prepare_fresh now first preprep
  | recvPrepare prep => exact recv_prepare_fresh first prep
  | recvPrepareNotTransfer prep => exact recv_prepare_not_transfer_fresh first prep
  | recvCommit commit => exact recv_commit_fresh first commit
  | recvCheckpoint chkpt => exact recv_checkpoint_fresh first chkpt

end Calls

section Lives

/-- The relays made so far in the life of a certificate: at most one per slot,
and while the certificate is there it has a mark for each. -/
structure Accounted (id : MsgID) (effects : List Effect) (worker : Worker) : Prop where
  once : ∀ slot, relayCount id slot effects ≤ 1
  marks : (worker.certStore.lookup id).isSome = true →
    ∀ slot, 0 < relayCount id slot effects → marked (certAt worker id) slot = true

theorem relay_count_single (id : MsgID) (slot : RelaySlot) {effects : List Effect} {msg : Message}
    {key : MsgID × RelaySlot} (single : relays effects = [msg]) (belongs : relaySlot msg = some key) :
    relayCount id slot effects = if key = (id, slot) then 1 else 0 := by
  unfold relayCount
  rw [single]
  simp [belongs]

theorem accounted_call (now : Instant) {worker : Worker} {id : MsgID} {effects : List Effect}
    (call : Call) (once : ∀ slot, relayCount id slot effects ≤ 1)
    (marks : ∀ slot, 0 < relayCount id slot effects → marked (certAt worker id) slot = true) :
    Accounted id (effects ++ (runCall now worker call).effects) (runCall now worker call).worker := by
  obtain ⟨kept, fresh⟩ := run_call_fresh now worker call
  rcases fresh with silent | ⟨msg, key, slot, single, belongs, unmarked, marksNow⟩
  · have same : ∀ slot, relayCount id slot (effects ++ (runCall now worker call).effects) =
        relayCount id slot effects := by
      intro slot
      rw [relay_count_append]
      unfold relayCount
      rw [silent, List.countP_nil, Nat.add_zero]
    constructor
    · intro slot
      rw [same]
      exact once slot
    · intro left slot some
      rw [same] at some
      exact kept id slot left (marks slot some)
  · have total : ∀ other, relayCount id other (effects ++ (runCall now worker call).effects) =
        relayCount id other effects + if (key, slot) = (id, other) then 1 else 0 := by
      intro other
      rw [relay_count_append, relay_count_single id other single belongs]
    have unused : key = id → relayCount id slot effects = 0 := by
      intro here
      by_contra used
      have mark := marks slot (Nat.pos_of_ne_zero used)
      rw [← here, unmarked] at mark
      cases mark
    constructor
    · intro other
      rw [total]
      split_ifs with target
      · obtain ⟨here, rfl⟩ := Prod.mk.inj target
        rw [unused here]
      · exact once other
    · intro left other some
      rw [total] at some
      split_ifs at some with target
      · obtain ⟨here, rfl⟩ := Prod.mk.inj target
        subst here
        exact marksNow left
      · exact kept id other left (marks other some)

theorem action_transfers_foreign {now : Instant} {first before after : Worker} {call : Call}
    {effects : List Effect} (action : Action now first call before effects after)
    {msg : ConsensusMsg2} (transferred : .transfer msg ∈ effects) :
    messageSender msg.msg ≠ before.nodeID := by
  cases action with
  | relay _ brought _ _ =>
      rw [mem_send_con_msg_transfer, Effect.transfer.injEq] at transferred
      rw [transferred.2]
      exact transferred.1
  | _ => simp at transferred

theorem run_call_relays_foreign (now : Instant) (worker : Worker) (call : Call) (msg : Message)
    (member : msg ∈ relays (runCall now worker call).effects) :
    messageSender msg ≠ worker.nodeID := by
  obtain ⟨effect, emitted, isRelay⟩ := List.mem_filterMap.mp member
  cases effect with
  | transfer sent =>
      obtain rfl := Option.some.inj isRelay
      obtain ⟨before, effects, after, same, action, inside, _⟩ :=
        chain_output (fun state => identityOf state = identityOf worker) rfl
          (fun _ _ _ action prior => (action_identity action).trans prior)
          (run_call_performs now worker call) _ emitted
      have foreign := action_transfers_foreign action inside
      rwa [show before.nodeID = worker.nodeID from congrArg Identity.nodeID same] at foreign
  | _ => cases isRelay

theorem run_relays_foreign {allowed : Replica → Event → Prop} {nodeID leader : String}
    {peersnum : Int} {events : List Event} {last : Replica}
    (run : Run step allowed (boot nodeID leader peersnum) events last) :
    ∀ msg ∈ relays last.log, messageSender msg ≠ nodeID := by
  have foreign : last.worker.nodeID = nodeID ∧
      ∀ msg ∈ relays last.log, messageSender msg ≠ nodeID := by
    refine run_invariant (fun replica : Replica => replica.worker.nodeID = nodeID ∧
      ∀ msg ∈ relays replica.log, messageSender msg ≠ nodeID) ?_ run ⟨rfl, by simp [boot, relays]⟩
    rintro replica event after _ stepped ⟨own, prior⟩
    obtain ⟨now, rest, call, _, _, rfl⟩ := step_performs stepped
    constructor
    · exact (congrArg Identity.nodeID (run_call_identity now replica.worker call)).trans own
    · intro msg member
      have parts : msg ∈ relays replica.log ∨
          msg ∈ relays (runCall now replica.worker call).effects := by
        rw [← List.mem_append, ← relays_append]
        exact member
      rcases parts with old | new
      · exact prior msg old
      · rw [← own]
        exact run_call_relays_foreign now replica.worker call msg new
  exact foreign.2

/-- The effects since a state, and their account for one certificate. -/
def AccountedSince (id : MsgID) (before : List Effect) (replica : Replica) : Prop :=
  ∃ effects, replica.log = before ++ effects ∧ Accounted id effects replica.worker

theorem step_accounted {id : MsgID} {before effects : List Effect} {replica after : Replica}
    {event : Event} (stepped : step replica event = some after)
    (since : replica.log = before ++ effects) (once : ∀ slot, relayCount id slot effects ≤ 1)
    (marks : ∀ slot, 0 < relayCount id slot effects →
      marked (certAt replica.worker id) slot = true) :
    AccountedSince id before after := by
  obtain ⟨now, rest, call, _, _, rfl⟩ := step_performs stepped
  refine ⟨effects ++ (runCall now replica.worker call).effects, ?_,
    accounted_call now call once marks⟩
  unfold perform absorb
  dsimp only
  rw [since, List.append_assoc]

/-- In every run a node relays nothing in its own name; and from the step that
creates a certificate to the one that removes it, it relays at most one message
of each slot. -/
theorem relayed_once_per_certificate (nodeID leader : String) (peersnum : Int)
    (events : List Event) (last : Replica)
    (run : Run step (fun _ _ => True) (boot nodeID leader peersnum) events last) :
    (∀ msg ∈ relays last.log, messageSender msg ≠ nodeID) ∧
      ∀ (id : MsgID) (creation : Event) (later : List Event) (created final : Replica),
        last.worker.certStore.lookup id = none → step last creation = some created →
        Run step (fun replica _ => (replica.worker.certStore.lookup id).isSome = true)
          created later final →
        ∃ effects, final.log = last.log ++ effects ∧
          ∀ slot, relayCount id slot effects ≤ 1 := by
  refine ⟨run_relays_foreign run, ?_⟩
  intro id creation later created final absent stepped life
  have started : AccountedSince id last.log created :=
    step_accounted stepped (List.append_nil _).symm (fun _ => Nat.zero_le _) fun _ some =>
      absurd some (Nat.lt_irrefl 0)
  have ended : AccountedSince id last.log final := by
    refine run_invariant (AccountedSince id last.log) ?_ life started
    rintro replica event after held next ⟨effects, since, account⟩
    exact step_accounted next since account.once (account.marks held)
  obtain ⟨effects, since, account⟩ := ended
  exact ⟨effects, since, account.once⟩

/-- After the PrePrepare of request 5: the same again, a Prepare twice, a
relayed copy of the node's own Prepare, and a Commit twice. -/
def repeatedMessages : List Event :=
  [.invoke 1 (.recvPrePrepare
      (prePrepareFor "a" 5 "5" (leaderRequest "a" 5 (plainBlock 2 0)))),
    .invoke 2 (.recvPrepare (voteFor "c" 5 "5")), .invoke 3 (.recvPrepare (voteFor "c" 5 "5")),
    .invoke 4 (.recvPrepare (voteFor "b" 5 "5")),
    .invoke 5 (.recvCommit (commitVote "d" 5 "5" 2 "2")),
    .invoke 6 (.recvCommit (commitVote "d" 5 "5" 2 "2"))]

def firstProposal : Event :=
  .invoke 0 (.recvPrePrepare (prePrepareFor "a" 5 "5" (leaderRequest "a" 5 (plainBlock 2 0))))

theorem relayed_once_on_repeated_messages :
    ∃ created final, step (boot "b" "a" 4) firstProposal = some created ∧
      Run step (fun replica _ => (replica.worker.certStore.lookup ⟨1, 5⟩).isSome = true)
        created repeatedMessages final ∧
      (relays final.log).map messageSender = ["a", "c", "d"] ∧
      ∃ effects, final.log = effects ∧ ∀ slot, relayCount ⟨1, 5⟩ slot effects ≤ 1 := by
  cases stepped : step (boot "b" "a" 4) firstProposal with
  | none => cases stepped
  | some created =>
      obtain ⟨final, life, senders⟩ : ∃ final,
          Run step (fun replica _ => (replica.worker.certStore.lookup ⟨1, 5⟩).isSome = true)
            created repeatedMessages final ∧
          ((relays final.log).map messageSender == ["a", "c", "d"]) = true := by
        obtain rfl := Option.some.inj stepped
        apply run_reaching
          (fun replica _ => (replica.worker.certStore.lookup ⟨1, 5⟩).isSome)
          (fun final : Replica => (relays final.log).map messageSender == ["a", "c", "d"])
          (fun _ _ passed => passed)
        decide +kernel
      have bound := (relayed_once_per_certificate "b" "a" 4 [] (boot "b" "a" 4) .start).2
        ⟨1, 5⟩ firstProposal repeatedMessages created final rfl stepped life
      exact ⟨created, final, rfl, life, eq_of_beq senders, bound⟩

end Lives

end PbftBlock.RelayOnce
