import PbftBlock.HandlerActions

/-!
# What an action changes

Three inversions of the action relation, one for each part of the consensus
state: who the node is never changes, a stored request comes from an accepted
Request or an admitted PrePrepare, and a certificate is left alone, thrown away
or extended in one of six ways. Invariants are proved from these and not from
the handlers.
-/

namespace PbftBlock.ActionChanges

open PbftBlock.ConsensusMessages PbftBlock.ConsensusWorker PbftBlock.ConsensusBasics
open PbftBlock.ConsensusHandlers PbftBlock.HandlerActions
open PbftBlock.Library.FiniteMaps PbftBlock.Library.GuardedRuns

set_option autoImplicit false

variable {now : Instant} {first before after : Worker} {call : Call} {effects : List Effect}

/-- What `Initt` fixes for the life of the process. -/
structure Identity where
  nodeID : String
  leader : String
  view : UInt64
  N : Int
  ready : Bool
deriving DecidableEq

def identityOf (worker : Worker) : Identity :=
  ⟨worker.nodeID, worker.leader, worker.view, worker.N, worker.ready⟩

theorem recv_checkpoint_frame (worker : Worker) (chkpt : Checkpoint) :
    ∃ blocks beats store height context,
      (recvCheckpoint worker chkpt).worker =
        { worker with
          possibleValidBlock := blocks
          blockbeats := beats
          checkpointStore := store
          checkpointBH := height
          consensusCtx := context
          chkpt := false } := by
  unfold recvCheckpoint recvCheckpointWith
  dsimp only
  split_ifs
  -- flattened first, the records are compared field by field
  all_goals
    dsimp only [done, failed, deletePVBAndBeats, deletbeats, deleteImpossibleValidBlock,
      updateCheckpointBH]
    exact ⟨_, _, _, _, _, rfl⟩

theorem action_identity (action : Action now first call before effects after) :
    identityOf after = identityOf before := by
  cases action with
  | checkpoint chkpt _ =>
      obtain ⟨_, _, _, _, _, frame⟩ := recv_checkpoint_frame before chkpt
      rw [frame]
      rfl
  | _ => rfl

theorem run_call_identity (now : Instant) (worker : Worker) (call : Call) :
    identityOf (runCall now worker call).worker = identityOf worker :=
  chain_state_invariant (fun state => identityOf state = identityOf worker) rfl
    (fun _ _ _ action prior => (action_identity action).trans prior)
    (run_call_performs now worker call)

theorem get_quorum_eq_of_identity {left right : Worker}
    (same : identityOf left = identityOf right) : getQuorum left = getQuorum right := by
  have sameN : left.N = right.N := congrArg Identity.N same
  simp only [getQuorum, sameN]

section Requests

inductive Stores (first : Worker) : Call → String → Request → Prop where
  | accepted (request : Request) (tests : Accepts first request) :
      Stores first (.recvRequest request) (newhashReq request) request
  | carried (preprep : PrePrepare) (request : Request) (tests : Admits first preprep request)
      (fresh : first.reqStore.lookup preprep.requestDigest = none) :
      Stores first (.recvPrePrepare preprep) preprep.requestDigest request

theorem action_request (action : Action now first call before effects after)
    {digest : String} {request : Request}
    (present : after.reqStore.lookup digest = some request) :
    before.reqStore.lookup digest = some request ∨ Stores first call digest request := by
  cases action with
  | storeRequest accepted _ tests =>
      simp only [storeRequest, lookup_insert_eq] at present
      split_ifs at present with same
      · obtain rfl := Option.some.inj present
        exact .inr (same ▸ .accepted accepted tests)
      · exact .inl present
  | storeCarried preprep carried _ tests fresh =>
      simp only [storeRequest, lookup_insert_eq] at present
      split_ifs at present with same
      · obtain rfl := Option.some.inj present
        exact .inr (same ▸ .carried preprep carried tests fresh)
      · exact .inl present
  | decidePositive commit _ _ _ _ _ _ _ => exact .inl (lookup_retain_some present).1
  | decideNegative commit _ _ _ => exact .inl (lookup_retain_some present).1
  | checkpoint chkpt _ =>
      obtain ⟨_, _, _, _, _, frame⟩ := recv_checkpoint_frame before chkpt
      rw [frame] at present
      exact .inl present
  | _ => exact .inl present

end Requests

section Certificates

theorem cert_at_remove_old (worker : Worker) (reqID : UInt64) (id : MsgID) :
    certAt (removeOldConMsg worker reqID) id =
      if id.n ≤ reqID then {} else certAt worker id := by
  simp only [certAt, removeOldConMsg, lookup_retain]
  by_cases old : id.n ≤ reqID
  · cases worker.certStore.lookup id <;> simp [old]
  · cases worker.certStore.lookup id <;> simp [old, Option.filter]

inductive CertChange (first : Worker) : Call → MsgID → MsgCert → MsgCert → Prop where
  | kept (call : Call) (id : MsgID) (cert : MsgCert) : CertChange first call id cert cert
  | removed (call : Call) (id : MsgID) (cert : MsgCert) : CertChange first call id cert {}
  | proposed (request : Request) (maker : Worker) (cert : MsgCert)
      (tests : Accepts first request) :
      CertChange first (.recvRequest request) ⟨request.view, request.reqID⟩ cert
        { cert with prePrepare := some (proposal maker request) }
  | tracked (preprep : PrePrepare) (request : Request) (cert : MsgCert)
      (tests : Admits first preprep request)
      (above : first.currentBlock < request.blockHeight)
      (free : SlotFree first preprep request) :
      CertChange first (.recvPrePrepare preprep) ⟨preprep.view, request.reqID⟩ cert
        { cert with prePrepare := some preprep }
  | prepareSent (call : Call) (id : MsgID) (cert : MsgCert) :
      CertChange first call id cert { cert with sentPrepare := true }
  | prepareAdded (call : Call) (prep : Prepare) (request : Request) (cert : MsgCert)
      (counts : call = .recvPrepare prep ∧ (∀ p ∈ cert.prepare, p.sender ≠ prep.sender) ∨
        call = .recvPrepareNotTransfer prep)
      (taken : TakesPrepare first prep request)
      (unchanged : cert = certAt first ⟨prep.view, prep.reqID⟩) :
      CertChange first call ⟨prep.view, prep.reqID⟩ cert
        { cert with prepare := cert.prepare ++ [prep] }
  | commitSent (call : Call) (id : MsgID) (cert : MsgCert) :
      CertChange first call id cert { cert with sentCommit := true }
  | commitAdded (commit : Commit) (cert : MsgCert)
      (fresh : ∀ c ∈ cert.commit, c.sender ≠ commit.sender) :
      CertChange first (.recvCommit commit) ⟨commit.view, commit.reqID⟩ cert
        { cert with commit := cert.commit ++ [commit] }

theorem cert_change_of_modify {worker : Worker} {key : MsgID} {change : MsgCert → MsgCert}
    (same : ∀ id, certAt worker id = certAt before id)
    (here : CertChange first call key (certAt before key) (change (certAt before key)))
    (id : MsgID) :
    CertChange first call id (certAt before id) (certAt (modifyCert worker key change) id) := by
  rw [cert_at_modify_cert, same, same]
  split_ifs with target
  · subst target
    exact here
  · exact .kept _ _ _

theorem cert_change_of_remove {worker : Worker}
    (same : ∀ id, certAt worker id = certAt before id) (reqID : UInt64) (id : MsgID) :
    CertChange first call id (certAt before id) (certAt (removeOldConMsg worker reqID) id) := by
  rw [cert_at_remove_old, same]
  split_ifs
  · exact .removed _ _ _
  · exact .kept _ _ _

theorem action_cert (action : Action now first call before effects after) (id : MsgID) :
    CertChange first call id (certAt before id) (certAt after id) := by
  cases action with
  | propose request _ tests _ _ =>
      exact cert_change_of_modify (cert_at_get_cert before _ _) (.proposed request before _ tests) id
  | openCert _ key _ =>
      rw [cert_at_get_cert]
      exact .kept _ _ _
  | track preprep request _ tests above _ unchanged free =>
      rw [SlotFree, unchanged] at free
      exact cert_change_of_modify (fun _ => rfl) (.tracked preprep request _ tests above free) id
  | sendPrepare preprep request _ _ _ _ _ =>
      exact cert_change_of_modify (fun _ => rfl) (.prepareSent _ _ _) id
  | addPrepare _ prep request _ counts opened current held above unsent =>
      subst opened
      have unchanged := cert_at_get_cert first prep.view prep.reqID ⟨prep.view, prep.reqID⟩
      rw [← unchanged] at counts
      have taken : TakesPrepare first prep request := ⟨current, held, above, unsent⟩
      exact cert_change_of_modify (fun _ => rfl)
        (.prepareAdded call prep request _ counts taken unchanged) id
  | sendCommit _ prep request block _ _ _ _ _ _ _ =>
      have recorded : ∀ id, certAt (recordCommit before request) id = certAt before id :=
        fun _ => rfl
      exact cert_change_of_modify recorded (.commitSent _ _ _) id
  | addCommit commit _ _ _ fresh =>
      exact cert_change_of_modify (fun _ => rfl) (.commitAdded commit _ fresh) id
  | decidePositive commit _ _ _ _ _ _ _ =>
      exact cert_change_of_remove (fun _ => rfl) commit.reqID id
  | decideNegative commit _ _ _ => exact cert_change_of_remove (fun _ => rfl) commit.reqID id
  | checkpoint chkpt _ =>
      obtain ⟨_, _, _, _, _, frame⟩ := recv_checkpoint_frame before chkpt
      rw [frame]
      exact .kept _ _ _
  | _ => exact .kept _ _ _

section OneCertificate

variable {id : MsgID} {old new : MsgCert}

theorem cert_change_slot (change : CertChange first call id old new) {preprep : PrePrepare}
    (slot : new.prePrepare = some preprep) :
    old.prePrepare = some preprep ∨
      (∃ request maker, call = .recvRequest request ∧ Accepts first request ∧
        id = ⟨request.view, request.reqID⟩ ∧ preprep = proposal maker request) ∨
      ∃ request, call = .recvPrePrepare preprep ∧ Admits first preprep request ∧
        first.currentBlock < request.blockHeight ∧ SlotFree first preprep request ∧
        id = ⟨preprep.view, request.reqID⟩ := by
  cases change with
  | removed => cases slot
  | proposed request maker _ tests =>
      exact .inr (.inl ⟨request, maker, rfl, tests, rfl, (Option.some.inj slot).symm⟩)
  | tracked tracked request _ tests above free =>
      obtain rfl := Option.some.inj slot
      exact .inr (.inr ⟨request, rfl, tests, above, free, rfl⟩)
  | _ => exact .inl slot

theorem cert_change_prepare (change : CertChange first call id old new) {prep : Prepare}
    (member : prep ∈ new.prepare) :
    prep ∈ old.prepare ∨
      callMessage call = some (.prepare prep) ∧ id = ⟨prep.view, prep.reqID⟩ := by
  cases change with
  | removed => simp at member
  | prepareAdded _ added _ _ counts _ _ =>
      rcases List.mem_append.mp member with inside | last
      · exact .inl inside
      · obtain rfl := List.mem_singleton.mp last
        refine .inr ⟨?_, rfl⟩
        rcases counts with ⟨rfl, _⟩ | rfl <;> rfl
  | _ => exact .inl member

theorem cert_change_commit (change : CertChange first call id old new) {commit : Commit}
    (member : commit ∈ new.commit) :
    commit ∈ old.commit ∨
      callMessage call = some (.commit commit) ∧ id = ⟨commit.view, commit.reqID⟩ := by
  cases change with
  | removed => simp at member
  | commitAdded added _ _ =>
      rcases List.mem_append.mp member with inside | last
      · exact .inl inside
      · obtain rfl := List.mem_singleton.mp last
        exact .inr ⟨rfl, rfl⟩
  | _ => exact .inl member

end OneCertificate

end Certificates

section Effects

theorem action_posts_request (action : Action now first call before effects after)
    {request : Request} {sender : String} (posted : .post ⟨.request request, sender⟩ ∈ effects) :
    ∃ raaaa block, call = .sendRequest raaaa ∧ raaaa.block = some block ∧
      before.currentBlock < block.number ∧ sender = before.nodeID ∧
      request = issuedRequest before block raaaa.blockbyte := by
  cases action with
  | issue raaaa _ block given above =>
      simp only [List.mem_cons, reduceCtorEq, Effect.post.injEq, ConsensusMsg.mk.injEq,
        Message.request.injEq, List.not_mem_nil, or_false, false_or] at posted
      exact ⟨raaaa, block, rfl, given, above, posted.2, posted.1⟩
  | _ => simp at posted

theorem action_posts_pre_prepare (action : Action now first call before effects after)
    {preprep : PrePrepare} {sender : String}
    (posted : .post ⟨.prePrepare preprep, sender⟩ ∈ effects) :
    ∃ request, call = .recvRequest request ∧ Accepts first request ∧
      inV before request.view = true ∧
      before.reqStore.lookup (newhashReq request) = some request ∧ sender = before.nodeID ∧
      preprep = proposal before request := by
  cases action with
  | propose request _ tests current held =>
      simp only [List.mem_cons, reduceCtorEq, Effect.post.injEq, ConsensusMsg.mk.injEq,
        Message.prePrepare.injEq, List.not_mem_nil, or_false, false_or] at posted
      exact ⟨request, rfl, tests, current, held, posted.2, posted.1⟩
  | _ => simp at posted

theorem action_posts_prepare (action : Action now first call before effects after)
    {prep : Prepare} {sender : String} (posted : .post ⟨.prepare prep, sender⟩ ∈ effects) :
    ∃ preprep request, call = .recvPrePrepare preprep ∧ Admits first preprep request ∧
      first.currentBlock < request.blockHeight ∧
      prePrepared before preprep.requestDigest preprep.view preprep.reqID = true ∧
      sender = before.nodeID ∧ prep = prepareFor before preprep := by
  cases action with
  | sendPrepare preprep request _ tests above tracked unsent =>
      simp only [List.mem_cons, reduceCtorEq, Effect.post.injEq, ConsensusMsg.mk.injEq,
        Message.prepare.injEq, List.not_mem_nil, or_false] at posted
      exact ⟨preprep, request, rfl, tests, above, tracked, posted.2, posted.1⟩
  | _ => simp at posted

theorem action_posts_commit (action : Action now first call before effects after)
    {commit : Commit} {sender : String} (posted : .post ⟨.commit commit, sender⟩ ∈ effects) :
    ∃ prep request opnion, (call = .recvPrepare prep ∨ call = .recvPrepareNotTransfer prep) ∧
      before.reqStore.lookup prep.requestDigest = some request ∧
      before.currentBlock < request.blockHeight ∧
      before.commitStore.lookup request.blockHeight = none ∧
      prepared before prep.requestDigest prep.view prep.reqID = true ∧
      after.commitStore = (recordCommit before request).commitStore ∧
      after.currentBlock = before.currentBlock ∧
      sender = before.nodeID ∧ commit = commitFor before prep request opnion := by
  cases action with
  | sendCommit _ prep request block _ counts held above unsent reached _ =>
      simp only [List.mem_cons, reduceCtorEq, Effect.post.injEq, ConsensusMsg.mk.injEq,
        Message.commit.injEq, List.not_mem_nil, or_false] at posted
      exact ⟨prep, request, _, counts, held, above, unsent, reached, rfl, rfl, posted.2, posted.1⟩
  | _ => simp at posted

theorem action_inserts (action : Action now first call before effects after)
    {decision : Decision} (inserted : .insertChain decision ∈ effects) :
    call = .recvCommit decision.commit ∧
      before = addCommit (getCert first decision.commit.view decision.commit.reqID)
        decision.commit ∧
      before.currentBlock < decision.commit.vr.blockHeight ∧
      committed before decision.commit.requestDigest decision.commit.view
        decision.commit.reqID = true ∧
      getValidResFromCommit before
        (certAt before ⟨decision.commit.view, decision.commit.reqID⟩) = .possitive ∧
      before.reqStore.lookup decision.commit.requestDigest = some decision.request ∧
      decision.block = selectBlock before decision.commit.vr.blockHeight
        decision.commit.vr.blockHash decision.request ∧
      after.currentBlock = before.currentBlock + 1 := by
  cases action with
  | decidePositive commit request _ added above reached verdict held =>
      simp only [List.mem_cons, reduceCtorEq, Effect.insertChain.injEq, List.not_mem_nil,
        or_false] at inserted
      subst inserted
      exact ⟨rfl, added, above, reached, verdict, held, rfl, rfl⟩
  | _ => simp at inserted

theorem action_completes (action : Action now first call before effects after)
    {decision : Decision} (inserted : .insertChain decision ∈ effects) :
    Completes first decision.commit := by
  obtain ⟨_, rfl, above, reached, verdict, _⟩ := action_inserts action inserted
  exact ⟨above, reached, verdict⟩

/-- A started call handles a message posted by the same action, or retries the
first Prepare of a certificate. -/
theorem action_spawns (action : Action now first call before effects after)
    {started : Call} (spawned : .spawn started ∈ effects) :
    (∃ msg sender, callMessage started = some msg ∧ .post ⟨msg, sender⟩ ∈ effects) ∨
      ∃ prep id, started = .recvPrepareNotTransfer prep ∧ prep ∈ (certAt before id).prepare := by
  cases action with
  | issue raaaa _ block _ _ =>
      obtain rfl : started = _ := by simpa using spawned
      exact .inl ⟨_, before.nodeID, rfl, by simp⟩
  | propose request _ _ _ _ =>
      obtain rfl : started = _ := by simpa using spawned
      exact .inl ⟨_, before.nodeID, rfl, by simp⟩
  | retry preprep request prep _ _ _ head =>
      obtain rfl : started = _ := by simpa using spawned
      exact .inr ⟨prep, _, rfl, List.mem_of_mem_head? head⟩
  | sendPrepare preprep request _ _ _ _ _ =>
      obtain rfl : started = _ := by simpa using spawned
      exact .inl ⟨_, before.nodeID, rfl, by simp⟩
  | sendCommit _ prep request block _ _ _ _ _ _ _ =>
      obtain rfl : started = _ := by simpa using spawned
      exact .inl ⟨_, before.nodeID, rfl, by simp⟩
  | _ => simp at spawned

theorem action_transfers (action : Action now first call before effects after)
    {msg : ConsensusMsg2} (transferred : .transfer msg ∈ effects) :
    callMessage call = some msg.msg := by
  cases action with
  | relay _ brought _ carried =>
      rw [mem_send_con_msg_transfer, Effect.transfer.injEq] at transferred
      rw [transferred.2]
      exact carried
  | _ => simp at transferred

end Effects

end PbftBlock.ActionChanges
