import PbftBlock.CorrectCluster

/-!
# Byzantine peers

A Byzantine peer runs no handler. It puts envelopes on its links, signed by
itself, at any time and to any node. What the messages inside may say differs
from one result to the next; the laws here are about the votes that honest
nodes collect when no vote is put into the mouth of an honest node.
-/

namespace PbftBlock.ByzantinePeers

open PbftBlock.ConsensusMessages PbftBlock.ConsensusWorker PbftBlock.ConsensusBasics
open PbftBlock.ConsensusHandlers PbftBlock.HandlerActions PbftBlock.ActionChanges
open PbftBlock.NodeMachine PbftBlock.NodeContents PbftBlock.ConsensusNetwork
open PbftBlock.NetworkContents PbftBlock.Agreement PbftBlock.RequestNumbers
open PbftBlock.Library.GuardedRuns

set_option autoImplicit false

def packetMessage : Packet → Option Message
  | .conMsg msg => some msg.msg
  | .zhuanfa msg => some msg.msg
  | .checkpoin _ => none

theorem packet_message_of_call {packet : Packet} {msg : Message}
    (carried : callMessage (packetCall packet) = some msg) : packetMessage packet = some msg := by
  cases packet with
  | conMsg cmsg => rwa [packetCall, message_of_message_call] at carried
  | zhuanfa cmsg => rwa [packetCall, message_of_message_call] at carried
  | checkpoin chkpt => cases carried

/-- Byzantine nodes run no handlers and cannot sign for others. -/
structure Adversarial (cluster : Cluster) (byz : Finset String) (net : Network)
    (event : NetEvent) : Prop where
  asleep : ∀ id call, Source cluster net event id call → id ∉ byz
  signed : ∀ envelope, event = .inject envelope → envelope.info.signer ∈ byz

def Injects (law : Message → Prop) (event : NetEvent) : Prop :=
  ∀ envelope msg, event = .inject envelope → packetMessage envelope.info.payload = some msg →
    law msg

/-- What the adversary sends to an honest node, and `handleMsg` lets through, obeys a law. -/
def Reaches (byz : Finset String) (law : Message → Prop) (event : NetEvent) : Prop :=
  ∀ envelope call msg, event = .inject envelope → envelope.dest ∉ byz →
    handleMsg envelope.link envelope.info = some call → callMessage call = some msg → law msg

theorem reaches_of_injects {byz : Finset String} {law : Message → Prop} {event : NetEvent}
    (injects : Injects law event) : Reaches byz law event := by
  intro envelope call msg put _ handled carried
  rw [← handle_msg_call handled] at carried
  exact injects envelope msg put (packet_message_of_call carried)

/-- A bound on the faulty nodes: members, at most a third of the others. -/
structure FaultBound (cluster : Cluster) (byz : Finset String) : Prop where
  members : ∀ id ∈ byz, id ∈ membersOf cluster
  few : (byz.card : Int) ≤ (peersnumOf cluster - 1) / 3

def voteWire (cluster : Cluster) (byz : Finset String) (record : String → List Effect) :
    Message → Prop
  | .prepare prep => Authentic cluster byz record (.prepare prep)
  | .commit commit => Authentic cluster byz record (.commit commit)
  | _ => True

variable {cluster : Cluster} {byz : Finset String} {record : String → List Effect}
  {allowed : Network → NetEvent → Prop} {net : Network} {events : List NetEvent}

theorem authentic_grows {msg : Message} (within : Within cluster byz record net)
    (authentic : Authentic cluster byz (recordOf net) msg) : Authentic cluster byz record msg := by
  by_cases faulty : messageSender msg ∈ byz
  · exact .inl faulty
  · obtain ⟨peer, posted⟩ := authentic.resolve_left faulty
    exact .inr ⟨peer, within _ ⟨peer, faulty⟩ _ posted⟩

theorem vote_wire_grows {msg : Message} (within : Within cluster byz record net)
    (lawful : voteWire cluster byz (recordOf net) msg) : voteWire cluster byz record msg := by
  cases msg with
  | request request => trivial
  | prePrepare preprep => trivial
  | prepare prep => exact authentic_grows within lawful
  | commit commit => exact authentic_grows within lawful

/-- Authentic votes stay authentic, whatever is demanded of requests and
PrePrepares besides. -/
theorem votes_govern {law : ContentLaw}
    (prepares : ∀ prep, law.prepare prep ↔ Authentic cluster byz record (.prepare prep))
    (commits : ∀ commit, law.commit commit ↔ Authentic cluster byz record (.commit commit))
    (asleep : ∀ state event id call, allowed state event → Source cluster state event id call →
      id ∉ byz)
    (authentic : ∀ state event, allowed state event →
      Reaches byz (voteWire cluster byz (recordOf state)) event)
    (contents : ∀ state event id call, allowed state event → Source cluster state event id call →
      (∀ digest request, Stores (state.replicas id).worker call digest request →
        law.stored digest request) ∧
      (∀ request maker, call = .recvRequest request →
        Accepts (state.replicas id).worker request →
        law.slot ⟨request.view, request.reqID⟩ (proposal maker request)) ∧
      ∀ preprep request, call = .recvPrePrepare preprep →
        Admits (state.replicas id).worker preprep request →
        law.slot ⟨preprep.view, request.reqID⟩ preprep) :
    Governs cluster byz allowed record (voteWire cluster byz record) law where
  honest := asleep
  brings state event id call _ guard source _ wire := by
    obtain ⟨stored, proposed, tracked⟩ := contents state event id call guard source
    exact ⟨stored, proposed, fun preprep request called tests _ _ =>
      tracked preprep request called tests,
      fun prep carried => (prepares prep).mpr (wire _ carried),
      fun commit carried => (commits commit).mpr (wire _ carried)⟩
  posts id quorum msg sender member posted explained := by
    cases msg with
    | request request => trivial
    | prePrepare preprep => trivial
    | prepare prep =>
        obtain ⟨rfl, rfl, _⟩ := explained
        exact .inr ⟨member.1, posted⟩
    | commit commit =>
        obtain ⟨rfl, rfl, _⟩ := explained
        exact .inr ⟨member.1, posted⟩
  votes prep vote := (prepares prep).mp vote
  injected state envelope call msg guard within reached handled carried :=
    vote_wire_grows within (authentic state _ guard envelope call msg rfl reached handled carried)

theorem run_log_keeps (Emitted : String → Effect → Prop)
    (emits : ∀ state event id call now effect, allowed state event →
      Source cluster state event id call →
      effect ∈ (runCall now (state.replicas id).worker call).effects → Emitted id effect)
    (run : Run (netStep cluster) allowed (startNetwork cluster) events net) (id : String)
    (effect : Effect) (member : effect ∈ (net.replicas id).log) : Emitted id effect := by
  refine run_invariant (fun state => ∀ effect ∈ (state.replicas id).log, Emitted id effect) ?_ run
    (by simp [startNetwork, bootOf, boot]) effect member
  intro state event after guard stepped prior other inside
  cases step_moves stepped with
  | ran now node rest call flight source _ alive owed travelling kept =>
      by_cases same : id = node
      · subst same
        simp only [Function.update_self] at inside
        rcases List.mem_append.mp inside with old | new
        · exact prior other old
        · exact emits state event id call now other guard source new
      · simp only [Function.update_of_ne same] at inside
        exact prior other inside
  | idle flight travelling kept => exact prior other inside
  | injected envelope put => exact prior other inside

/-- A decision is made by a Commit that completes its certificate, in a state that stores
the request, and the block is selected there. -/
theorem call_decision {now : Instant} {worker : Worker} {call : Call} {decision : Decision}
    (inserted : .insertChain decision ∈ (runCall now worker call).effects) :
    call = .recvCommit decision.commit ∧ Completes worker decision.commit ∧
      worker.reqStore.lookup decision.commit.requestDigest = some decision.request ∧
      decision.block = selectBlock worker decision.commit.vr.blockHeight
        decision.commit.vr.blockHash decision.request := by
  obtain ⟨before, effects, after, _, action, member, _⟩ :=
    Library.GuardedRuns.chain_output (fun _ => True) trivial (fun _ _ _ _ _ => trivial)
      (run_call_performs now worker call) _ inserted
  have completes := action_completes action member
  obtain ⟨called, added, _, _, _, held, selected, _⟩ := action_inserts action member
  subst added
  exact ⟨called, completes, held, selected⟩

/-- A Commit that completes a certificate names the height of the request stored under
its digest, and the pool has no other block under its height and hash. -/
def CommitFits (worker : Worker) (call : Call) : Prop :=
  ∀ commit request, call = .recvCommit commit → Completes worker commit →
    worker.reqStore.lookup commit.requestDigest = some request →
    commit.vr.blockHeight = request.blockHeight ∧
      ∀ block, getBlockFromPossibleValidBlock worker commit.vr.blockHeight
        commit.vr.blockHash = some block → request.realblock = some block

theorem run_decisions_fit
    (fits : ∀ state event, allowed state event →
      EachCallAt cluster (fun _ worker call => CommitFits worker call) state event)
    (run : Run (netStep cluster) allowed (startNetwork cluster) events net) {id : String}
    {decision : Decision} (decided : .insertChain decision ∈ (net.replicas id).log) :
    decision.commit.vr.blockHeight = decision.request.blockHeight ∧
      decision.block = decision.request.realblock := by
  refine run_log_keeps (fun _ effect => ∀ made, effect = .insertChain made →
    made.commit.vr.blockHeight = made.request.blockHeight ∧
      made.block = made.request.realblock) ?_ run id _ decided decision rfl
  intro state event node call now effect guard source member made same
  subst same
  obtain ⟨called, completes, held, selected⟩ := call_decision member
  obtain ⟨height, pooled⟩ := fits state event guard node call source _ _ called completes held
  refine ⟨height, ?_⟩
  rw [selected, selectBlock]
  cases found : getBlockFromPossibleValidBlock (state.replicas node).worker
      made.commit.vr.blockHeight made.commit.vr.blockHash with
  | none => rfl
  | some block => exact (pooled block found).symm

section FourNodes

def fourCluster : Cluster := ⟨":5001", [":5002", ":5003", ":5004"], by decide⟩

def nodeA : String := "127.0.0.1:5001"

def nodeB : String := "127.0.0.1:5002"

def nodeC : String := "127.0.0.1:5003"

def nodeD : String := "127.0.0.1:5004"

theorem fault_bound_singleton {faulty : String} (member : faulty ∈ membersOf fourCluster) :
    FaultBound fourCluster {faulty} where
  members id inside := by
    rw [Finset.mem_singleton.mp inside]
    exact member
  few := by
    rw [Finset.card_singleton]
    decide

def directly (peer dest : String) (msg : Message) : NetEvent :=
  .inject ⟨peer, dest, ⟨peer, .conMsg ⟨msg, peer⟩⟩⟩

instance decidableAuthentic (cluster : Cluster) (byz : Finset String)
    (record : String → List Effect) (msg : Message) :
    Decidable (Authentic cluster byz record msg) :=
  inferInstanceAs (Decidable (_ ∨ _ ∧ _))

instance decidableVoteWire (cluster : Cluster) (byz : Finset String)
    (record : String → List Effect) : (msg : Message) → Decidable (voteWire cluster byz record msg)
  | .request _ => .isTrue trivial
  | .prePrepare _ => .isTrue trivial
  | .prepare prep => decidableAuthentic cluster byz record (.prepare prep)
  | .commit commit => decidableAuthentic cluster byz record (.commit commit)

def isAdversarial (cluster : Cluster) (byz : Finset String) (net : Network)
    (event : NetEvent) : Bool :=
  checksCalls cluster (fun id _ _ => decide (id ∉ byz)) net event &&
    match event with
    | .inject envelope => decide (envelope.info.signer ∈ byz)
    | _ => true

theorem adversarial_of_test {event : NetEvent}
    (passed : isAdversarial cluster byz net event = true) : Adversarial cluster byz net event := by
  unfold isAdversarial at passed
  rw [Bool.and_eq_true] at passed
  refine ⟨each_call_of_checks (fun _ _ _ => of_decide_eq_true) passed.1, ?_⟩
  intro envelope same
  subst same
  exact of_decide_eq_true passed.2

def injectsTest (test : Message → Bool) : NetEvent → Bool
  | .inject envelope => (packetMessage envelope.info.payload).all test
  | _ => true

theorem injects_of_test {law : Message → Prop} {test : Message → Bool}
    (sound : ∀ msg, test msg = true → law msg) {event : NetEvent}
    (passed : injectsTest test event = true) : Injects law event := by
  intro envelope msg same carried
  subst same
  rw [injectsTest, carried] at passed
  exact sound msg passed

def ownNameTest (faulty : String) (net : Network) (event : NetEvent) : Bool :=
  isAdversarial fourCluster {faulty} net event &&
    injectsTest (fun msg => decide (Authentic fourCluster {faulty} (recordOf net) msg)) event

theorem own_name_of_test {faulty : String} {net : Network} {event : NetEvent}
    (passed : ownNameTest faulty net event = true) :
    Adversarial fourCluster {faulty} net event ∧
      Injects (Authentic fourCluster {faulty} (recordOf net)) event := by
  rw [ownNameTest, Bool.and_eq_true] at passed
  exact ⟨adversarial_of_test passed.1, injects_of_test (fun _ => of_decide_eq_true) passed.2⟩

def commitFitsTest (worker : Worker) : Call → Bool
  | .recvCommit commit =>
      (worker.reqStore.lookup commit.requestDigest).all fun request =>
        commit.vr.blockHeight == request.blockHeight &&
          (getBlockFromPossibleValidBlock worker commit.vr.blockHeight commit.vr.blockHash).all
            fun block => decide (request.realblock = some block)
  | _ => true

theorem commit_fits_of_test {worker : Worker} {call : Call}
    (passed : commitFitsTest worker call = true) : CommitFits worker call := by
  intro commit request called _ held
  subst called
  rw [commitFitsTest, held] at passed
  simp only [Option.all_some, Bool.and_eq_true, beq_iff_eq, Option.all_eq_true,
    decide_eq_true_eq] at passed
  exact passed

end FourNodes

end PbftBlock.ByzantinePeers
