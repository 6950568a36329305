import PbftBlock.NodeMachine

/-!
# Laws on what a node holds

A content law says which requests may lie in `reqStore` under which digest,
which PrePrepares may sit in the certificate under which key, and which Prepares
and Commits may be collected. If every call brings only lawful contents, the
node only ever holds lawful contents, and what it posts and decides can be
traced back to them.
-/

namespace PbftBlock.NodeContents

open PbftBlock.ConsensusMessages PbftBlock.ConsensusWorker PbftBlock.ConsensusBasics
open PbftBlock.ConsensusHandlers PbftBlock.HandlerActions PbftBlock.ActionChanges
open PbftBlock.NodeMachine
open PbftBlock.Library.DistinctVotes PbftBlock.Library.GuardedRuns

set_option autoImplicit false

structure ContentLaw where
  stored : String → Request → Prop
  slot : MsgID → PrePrepare → Prop
  prepare : Prepare → Prop
  commit : Commit → Prop

structure Lawful (law : ContentLaw) (worker : Worker) : Prop where
  requests : ∀ digest request, worker.reqStore.lookup digest = some request →
    law.stored digest request
  slots : ∀ id preprep, (certAt worker id).prePrepare = some preprep → law.slot id preprep
  prepares : ∀ id, ∀ prep ∈ (certAt worker id).prepare,
    law.prepare prep ∧ id = ⟨prep.view, prep.reqID⟩
  commits : ∀ id, ∀ commit ∈ (certAt worker id).commit,
    law.commit commit ∧ id = ⟨commit.view, commit.reqID⟩

/-- What a call would add to the worker is lawful, given the tests it passes. -/
structure Brings (law : ContentLaw) (worker : Worker) (call : Call) : Prop where
  stored : ∀ digest request, Stores worker call digest request → law.stored digest request
  proposed : ∀ request maker, call = .recvRequest request → Accepts worker request →
    law.slot ⟨request.view, request.reqID⟩ (proposal maker request)
  tracked : ∀ preprep request, call = .recvPrePrepare preprep →
    Admits worker preprep request → worker.currentBlock < request.blockHeight →
    SlotFree worker preprep request → law.slot ⟨preprep.view, request.reqID⟩ preprep
  prepare : ∀ prep, callMessage call = some (.prepare prep) → law.prepare prep
  commit : ∀ commit, callMessage call = some (.commit commit) → law.commit commit

theorem start_lawful (law : ContentLaw) (nodeID leader : String) (peersnum : Int) :
    Lawful law (startWorker nodeID leader peersnum) := by
  have empty : ∀ id, certAt (startWorker nodeID leader peersnum) id = {} := fun _ => rfl
  constructor
  · intro digest request present
    cases present
  · intro id preprep slot
    rw [empty] at slot
    cases slot
  · intro id prep member
    simp [empty] at member
  · intro id commit member
    simp [empty] at member

variable {law : ContentLaw} {now : Instant} {first before after : Worker} {call : Call}
  {effects : List Effect}

theorem action_lawful (brought : Brings law first call)
    (action : Action now first call before effects after) (prior : Lawful law before) :
    Lawful law after := by
  constructor
  · intro digest request present
    rcases action_request action present with old | stores
    · exact prior.requests digest request old
    · exact brought.stored digest request stores
  · intro id preprep slot
    rcases cert_change_slot (action_cert action id) slot with
      old | ⟨request, maker, called, tests, rfl, rfl⟩ | ⟨request, called, tests, above, free, rfl⟩
    · exact prior.slots id preprep old
    · exact brought.proposed request maker called tests
    · exact brought.tracked preprep request called tests above free
  · intro id prep member
    rcases cert_change_prepare (action_cert action id) member with old | ⟨called, key⟩
    · exact prior.prepares id prep old
    · exact ⟨brought.prepare prep called, key⟩
  · intro id commit member
    rcases cert_change_commit (action_cert action id) member with old | ⟨called, key⟩
    · exact prior.commits id commit old
    · exact ⟨brought.commit commit called, key⟩

theorem run_call_lawful (brought : Brings law first call) (prior : Lawful law first) :
    Lawful law (runCall now first call).worker :=
  chain_state_invariant (Lawful law) prior
    (fun _ _ _ action held => action_lawful brought action held) (run_call_performs now first call)

/-- If the condition on the calls of a run makes them bring lawful contents, all
states of the run are lawful. -/
theorem run_lawful {condition : Worker → Call → Prop}
    (brings : ∀ worker call, condition worker call → Brings law worker call)
    {nodeID leader : String} {peersnum : Int} {events : List Event} {last : Replica}
    (run : Run step (EachCall condition) (boot nodeID leader peersnum) events last) :
    Lawful law last.worker := by
  refine run_keeps (fun worker _ => Lawful law worker) ?_ run (start_lawful law _ _ _)
  intro now worker _ call allowed prior
  exact run_call_lawful (brings worker call allowed) prior

section Tallies

variable {worker : Worker} {digest : String} {v reqID : UInt64}

/-- A key that is not in `certStore` has the empty certificate, so the three
tests can be read off `certAt`. -/
theorem pre_prepared_eq (worker : Worker) (digest : String) (v reqID : UInt64) :
    prePrepared worker digest v reqID =
      ((digest == "" || (worker.reqStore.lookup digest).isSome) &&
        (certAt worker ⟨v, reqID⟩).prePrepare.any fun p =>
          p.view == v && p.reqID == reqID && p.requestDigest == digest) := by
  unfold prePrepared certAt
  split_ifs with unknown
  · simp [unknown.1, Option.isNone_iff_eq_none.mp unknown.2]
  · have known : (digest == "" || (worker.reqStore.lookup digest).isSome) = true := by
      by_contra missing
      simp_all
    rw [known, Bool.true_and]
    cases worker.certStore.lookup ⟨v, reqID⟩ with
    | none => rfl
    | some cert =>
        dsimp only [Option.getD_some]
        cases cert.prePrepare <;> rfl

theorem prepared_eq (worker : Worker) (digest : String) (v reqID : UInt64) :
    prepared worker digest v reqID =
      (prePrepared worker digest v reqID && decide (getQuorum worker ≤
        ((certAt worker ⟨v, reqID⟩).prepare.countP (matchesPrepare digest v reqID) : Int))) := by
  unfold prepared
  cases tracked : prePrepared worker digest v reqID with
  | false => rfl
  | true =>
      rw [pre_prepared_eq] at tracked
      unfold certAt at tracked ⊢
      cases known : worker.certStore.lookup ⟨v, reqID⟩ with
      | none => simp [known] at tracked
      | some cert => rfl

theorem committed_eq (worker : Worker) (digest : String) (v reqID : UInt64) :
    committed worker digest v reqID =
      (prepared worker digest v reqID && decide (getQuorum worker ≤
        ((committedVotes (certAt worker ⟨v, reqID⟩) v reqID).length : Int))) := by
  unfold committed
  cases ready : prepared worker digest v reqID with
  | false => rfl
  | true =>
      rw [prepared_eq, pre_prepared_eq] at ready
      unfold certAt at ready ⊢
      cases known : worker.certStore.lookup ⟨v, reqID⟩ with
      | none => simp [known] at ready
      | some cert => rfl

theorem pre_prepared_slot (tracked : prePrepared worker digest v reqID = true) :
    ∃ preprep, (certAt worker ⟨v, reqID⟩).prePrepare = some preprep ∧ preprep.view = v ∧
      preprep.reqID = reqID ∧ preprep.requestDigest = digest := by
  rw [pre_prepared_eq, Bool.and_eq_true, Option.any_eq_true] at tracked
  obtain ⟨_, preprep, slot, named⟩ := tracked
  simp only [Bool.and_eq_true, beq_iff_eq] at named
  exact ⟨preprep, slot, named.1.1, named.1.2, named.2⟩

theorem prepared_tally (reached : prepared worker digest v reqID = true) :
    prePrepared worker digest v reqID = true ∧
      getQuorum worker ≤
        ((certAt worker ⟨v, reqID⟩).prepare.countP (matchesPrepare digest v reqID) : Int) := by
  rwa [prepared_eq, Bool.and_eq_true, decide_eq_true_eq] at reached

theorem committed_tally (reached : committed worker digest v reqID = true) :
    prepared worker digest v reqID = true ∧
      getQuorum worker ≤
        ((committedVotes (certAt worker ⟨v, reqID⟩) v reqID).length : Int) := by
  rwa [committed_eq, Bool.and_eq_true, decide_eq_true_eq] at reached

theorem mem_committed_votes {cert : MsgCert} {commit : Commit}
    (member : commit ∈ committedVotes cert v reqID) :
    commit ∈ cert.commit ∧ commit.view = v ∧ commit.reqID = reqID := by
  have kept := (counted_sublist Commit.sender _).subset member
  simpa [matchesCommit] using kept

end Tallies

section Outputs

theorem call_output (brought : Brings law first call) (prior : Lawful law first)
    {effect : Effect} (emitted : effect ∈ (runCall now first call).effects) :
    ∃ before effects after, Lawful law before ∧ identityOf before = identityOf first ∧
      Action now first call before effects after ∧ effect ∈ effects ∧
      ∀ other ∈ effects, other ∈ (runCall now first call).effects := by
  obtain ⟨before, effects, after, ⟨lawful, same⟩, action, member, all⟩ :=
    chain_output (fun state => Lawful law state ∧ identityOf state = identityOf first)
      ⟨prior, rfl⟩
      (fun _ _ _ action held =>
        ⟨action_lawful brought action held.1, (action_identity action).trans held.2⟩)
      (run_call_performs now first call) effect emitted
  exact ⟨before, effects, after, lawful, same, action, member, all⟩

def Tracked (law : ContentLaw) (v reqID : UInt64) (digest : String) : Prop :=
  ∃ preprep, law.slot ⟨v, reqID⟩ preprep ∧ preprep.view = v ∧ preprep.reqID = reqID ∧
    preprep.requestDigest = digest

theorem tracked_of_pre_prepared {worker : Worker} (lawful : Lawful law worker) {digest : String}
    {v reqID : UInt64} (reached : prePrepared worker digest v reqID = true) :
    Tracked law v reqID digest := by
  obtain ⟨preprep, slot, view, number, named⟩ := pre_prepared_slot reached
  exact ⟨preprep, lawful.slots _ _ slot, view, number, named⟩

/-- A decision rests on a lawful request, a tracked certificate, and lawful
Commits for its view and number from a quorum of different senders. -/
structure Backed (law : ContentLaw) (quorum : Int) (decision : Decision) : Prop where
  request : law.stored decision.commit.requestDigest decision.request
  tracked : Tracked law decision.commit.view decision.commit.reqID decision.commit.requestDigest
  commit : law.commit decision.commit
  votes : ∃ votes : List Commit, (votes.map Commit.sender).Nodup ∧
    quorum ≤ (votes.length : Int) ∧
    ∀ vote ∈ votes, law.commit vote ∧ vote.view = decision.commit.view ∧
      vote.reqID = decision.commit.reqID

/-- What an effect in the history of a lawful node says. -/
def Explained (law : ContentLaw) (quorum : Int) (id : String) : Effect → Prop
  | .post ⟨.request request, sender⟩ => sender = id ∧ request.sender = id
  | .post ⟨.prePrepare preprep, sender⟩ =>
      sender = id ∧ preprep.sender = id ∧
        ∃ request, law.stored (newhashReq request) request ∧ preprep.request = some request ∧
          preprep.view = request.view ∧ preprep.reqID = request.reqID ∧
          preprep.requestDigest = newhashReq request
  | .post ⟨.prepare prep, sender⟩ =>
      sender = id ∧ prep.sender = id ∧ Tracked law prep.view prep.reqID prep.requestDigest
  | .post ⟨.commit commit, sender⟩ =>
      sender = id ∧ commit.sender = id ∧
        Tracked law commit.view commit.reqID commit.requestDigest ∧
        ∃ request, law.stored commit.requestDigest request ∧
          commit.vr.blockHeight = request.blockHeight ∧ commit.vr.blockHash = request.blockHash
  | .insertChain decision => Backed law quorum decision
  | .transfer _ => True
  | .postCheckpoint _ => True
  | .spawn _ => True

theorem backed_of_committed {worker : Worker} (lawful : Lawful law worker) {commit : Commit}
    {request : Request} {block : Option Block} (own : law.commit commit)
    (reached : committed worker commit.requestDigest commit.view commit.reqID = true)
    (held : worker.reqStore.lookup commit.requestDigest = some request) :
    Backed law (getQuorum worker) ⟨commit, request, block⟩ := by
  obtain ⟨ready, enough⟩ := committed_tally reached
  refine ⟨lawful.requests _ _ held, tracked_of_pre_prepared lawful (prepared_tally ready).1, own,
    committedVotes (certAt worker ⟨commit.view, commit.reqID⟩) commit.view commit.reqID,
    counted_voters_nodup _ _, enough, ?_⟩
  intro vote member
  obtain ⟨inside, view, number⟩ := mem_committed_votes member
  exact ⟨(lawful.commits _ vote inside).1, view, number⟩

theorem call_explained (brought : Brings law first call) (prior : Lawful law first)
    {effect : Effect} (emitted : effect ∈ (runCall now first call).effects) :
    Explained law (getQuorum first) first.nodeID effect := by
  obtain ⟨before, effects, after, lawful, same, action, member, _⟩ :=
    call_output brought prior emitted
  have named : before.nodeID = first.nodeID := congrArg Identity.nodeID same
  rw [← named, ← get_quorum_eq_of_identity same]
  match effect with
  | .post ⟨.request request, sender⟩ =>
      obtain ⟨_, _, _, _, _, rfl, rfl⟩ := action_posts_request action member
      exact ⟨rfl, rfl⟩
  | .post ⟨.prePrepare preprep, sender⟩ =>
      obtain ⟨request, _, _, _, held, rfl, rfl⟩ := action_posts_pre_prepare action member
      exact ⟨rfl, rfl, request, lawful.requests _ _ held, rfl, rfl, rfl, rfl⟩
  | .post ⟨.prepare prep, sender⟩ =>
      obtain ⟨preprep, _, _, _, _, tracked, rfl, rfl⟩ := action_posts_prepare action member
      exact ⟨rfl, rfl, tracked_of_pre_prepared lawful tracked⟩
  | .post ⟨.commit commit, sender⟩ =>
      obtain ⟨prep, request, _, _, held, _, _, reached, _, _, rfl, rfl⟩ :=
        action_posts_commit action member
      exact ⟨rfl, rfl, tracked_of_pre_prepared lawful (prepared_tally reached).1,
        request, lawful.requests _ _ held, rfl, rfl⟩
  | .insertChain ⟨commit, request, block⟩ =>
      obtain ⟨called, _, _, reached, _, held, _⟩ := action_inserts action member
      subst called
      exact backed_of_committed lawful (brought.commit commit rfl) reached held
  | .transfer _ => trivial
  | .postCheckpoint _ => trivial
  | .spawn _ => trivial

/-- A call a node owes afterwards handles a message it has just posted, or a
lawful Prepare it held. -/
theorem call_spawns (brought : Brings law first call) (prior : Lawful law first) {started : Call}
    (spawned : .spawn started ∈ (runCall now first call).effects) :
    ∃ msg, callMessage started = some msg ∧
      ((∃ sender, .post ⟨msg, sender⟩ ∈ (runCall now first call).effects) ∨
        ∃ prep, msg = .prepare prep ∧ law.prepare prep) := by
  obtain ⟨before, effects, after, lawful, _, action, member, all⟩ :=
    call_output brought prior spawned
  rcases action_spawns action member with ⟨msg, sender, carried, inside⟩ | ⟨prep, id, rfl, held⟩
  · exact ⟨msg, carried, .inl ⟨sender, all _ inside⟩⟩
  · exact ⟨.prepare prep, rfl, .inr ⟨prep, rfl, (lawful.prepares id prep held).1⟩⟩

theorem call_transfers (brought : Brings law first call) (prior : Lawful law first)
    {msg : ConsensusMsg2} (transferred : .transfer msg ∈ (runCall now first call).effects) :
    callMessage call = some msg.msg := by
  obtain ⟨before, effects, after, _, _, action, member, _⟩ :=
    call_output brought prior transferred
  exact action_transfers action member

end Outputs

end PbftBlock.NodeContents
