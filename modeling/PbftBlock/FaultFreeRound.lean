import PbftBlock.RoundSimulation
import PbftBlock.ByzantinePeers

/-!
# A fault-free round

All nodes run the code, the leader issues one valid block, every message is
delivered to every other node once and every goroutine gets its turn. A vote
that has been sent is then at every node either counted or still to come, and
when nothing is to come any more every node has decided. A Prepare that
overtakes the request breaks this: `RecvPrepare` returns before it is counted,
and nothing brings it back.
-/

namespace PbftBlock.FaultFreeRound

open PbftBlock.ConsensusMessages PbftBlock.ConsensusWorker PbftBlock.ConsensusBasics
open PbftBlock.ConsensusHandlers PbftBlock.HandlerActions PbftBlock.NodeMachine
open PbftBlock.NodeContents PbftBlock.ConsensusNetwork PbftBlock.NetworkContents
open PbftBlock.ByzantinePeers PbftBlock.CorrectCluster PbftBlock.RoundTurns
open PbftBlock.RoundSimulation PbftBlock.CommitOncePerHeight
open PbftBlock.Library.GuardedRuns

set_option autoImplicit false

/-- One call of `SendRequest`, with the block of the round; besides that every
message is delivered once and every goroutine runs once. -/
def Scheduled (round : Round) (net : Network) : NetEvent → Prop
  | .submit _ raaaa => net.submitted = [] ∧ raaaa = ⟨some round.block, round.blockbyte⟩
  | .deliver _ _ => True
  | .resume _ _ _ => True
  | .redeliver _ _ => False
  | .inject _ => False

/-- A Prepare is handled by nodes only that have its request, or whose chain has
reached the height of the round. -/
def PrepareInTime (round : Round) (worker : Worker) (call : Call) : Prop :=
  ∀ prep, call = .recvPrepare prep → (worker.reqStore.lookup prep.requestDigest).isSome = true ∨
    round.block.number ≤ worker.currentBlock

structure RoundGuard (round : Round) (net : Network) (event : NetEvent) : Prop where
  scheduled : Scheduled round net event
  inTime : EachCallAt round.cluster (fun _ => PrepareInTime round) net event

structure Quiescent (cluster : Cluster) (net : Network) : Prop where
  delivered : net.inFlight = []
  executed : ∀ id ∈ membersOf cluster, (net.replicas id).pending = []

section Deliveries

/-- The call is owed by node `id`, or on its way to it. -/
def Incoming (net : Network) (id : String) (call : Call) : Prop :=
  call ∈ (net.replicas id).pending ∨ ∃ envelope ∈ net.inFlight, envelope.dest = id ∧
    handleMsg envelope.link envelope.info = some call

/-- What is owed and what is in flight, when `call` is taken from it to be run
at node `id`. -/
structure Consumes (net : Network) (id : String) (call : Call) (rest : List Call)
    (flight : List Envelope) : Prop where
  rested : ∀ other ∈ rest, other ∈ (net.replicas id).pending
  owed : ∀ other ∈ (net.replicas id).pending, other ∈ rest ∨ other = call
  travelling : ∀ envelope ∈ flight, envelope ∈ net.inFlight
  kept : ∀ envelope ∈ net.inFlight, envelope ∈ flight ∨
    envelope.dest = id ∧ handleMsg envelope.link envelope.info = some call

def afterCall (cluster : Cluster) (net : Network) (id : String) (rest : List Call)
    (flight : List Envelope) (outcome : Outcome) (submitted : List Raaaa) : Network :=
  ⟨Function.update net.replicas id (absorb (net.replicas id) rest outcome),
    flight ++ broadcast cluster id outcome.effects, submitted⟩

variable {cluster : Cluster} {net : Network} {id node : String} {call other : Call}
  {rest : List Call} {flight : List Envelope} {outcome : Outcome} {submitted : List Raaaa}

theorem incoming_kept (consumes : Consumes net id call rest flight)
    (incoming : Incoming net node other) :
    node = id ∧ other = call ∨
      Incoming (afterCall cluster net id rest flight outcome submitted) node other := by
  rcases incoming with owed | ⟨envelope, inside, rfl, handled⟩
  · by_cases same : node = id
    · subst same
      rcases consumes.owed other owed with left | rfl
      · refine .inr (.inl ?_)
        simp only [afterCall, Function.update_self]
        exact List.mem_append_left _ left
      · exact .inl ⟨rfl, rfl⟩
    · refine .inr (.inl ?_)
      simp only [afterCall, Function.update_of_ne same]
      exact owed
  · rcases consumes.kept envelope inside with left | ⟨here, taken⟩
    · exact .inr (.inr ⟨envelope, List.mem_append_left _ left, rfl, handled⟩)
    · exact .inl ⟨here, Option.some.inj (handled.symm.trans taken)⟩

theorem incoming_spawned (spawned : .spawn other ∈ outcome.effects) :
    Incoming (afterCall cluster net id rest flight outcome submitted) id other := by
  refine .inl ?_
  simp only [afterCall, Function.update_self]
  exact List.mem_append_right _ (List.mem_filterMap.mpr ⟨_, spawned, rfl⟩)

theorem mem_broadcast_of_outgoing {effects : List Effect} {effect : Effect} {packet : Packet}
    (emitted : effect ∈ effects) (out : outgoing effect = some packet)
    (member : node ∈ membersOf cluster) (apart : node ≠ id) :
    ⟨id, node, ⟨id, packet⟩⟩ ∈ broadcast cluster id effects := by
  unfold broadcast
  refine List.mem_flatMap.mpr ⟨packet, List.mem_filterMap.mpr ⟨effect, emitted, out⟩, ?_⟩
  exact List.mem_map.mpr ⟨node, List.mem_filter.mpr ⟨member, by simpa using apart⟩, rfl⟩

theorem incoming_posted {msg : ConsensusMsg} (posted : .post msg ∈ outcome.effects)
    (member : node ∈ membersOf cluster) (apart : node ≠ id) :
    Incoming (afterCall cluster net id rest flight outcome submitted) node
      (messageCall msg.msg) := by
  have sent := mem_broadcast_of_outgoing posted rfl member apart
  exact .inr ⟨_, List.mem_append_right _ sent, rfl, by simp [handleMsg, validateSig, packetCall]⟩

/-- What a node posts and also spawns for itself is incoming everywhere. -/
theorem incoming_everywhere {msg : ConsensusMsg} (posted : .post msg ∈ outcome.effects)
    (spawned : .spawn (messageCall msg.msg) ∈ outcome.effects) (member : node ∈ membersOf cluster) :
    Incoming (afterCall cluster net id rest flight outcome submitted) node
      (messageCall msg.msg) := by
  by_cases same : node = id
  · subst same
    exact incoming_spawned spawned
  · exact incoming_posted posted member same

theorem effect_call_of_outgoing {effect : Effect} {packet : Packet}
    (out : outgoing effect = some packet) : effectCall effect = some (packetCall packet) := by
  cases effect with
  | spawn started => cases out
  | _ => exact congrArg (Option.map packetCall) out

theorem incoming_source (consumes : Consumes net id call rest flight)
    (incoming : Incoming (afterCall cluster net id rest flight outcome submitted) node other) :
    Incoming net node other ∨ ∃ effect ∈ outcome.effects, effectCall effect = some other := by
  rcases incoming with owed | ⟨envelope, inside, rfl, handled⟩
  · by_cases same : node = id
    · subst same
      simp only [afterCall, Function.update_self] at owed
      rcases List.mem_append.mp owed with old | new
      · exact .inl (.inl (consumes.rested other old))
      · obtain ⟨effect, emitted, started⟩ := List.mem_filterMap.mp new
        cases effect with
        | spawn spawned => exact .inr ⟨_, emitted, started⟩
        | _ => cases started
    · simp only [afterCall, Function.update_of_ne same] at owed
      exact .inl (.inl owed)
  · rcases List.mem_append.mp inside with old | new
    · exact .inl (.inr ⟨envelope, consumes.travelling _ old, rfl, handled⟩)
    · obtain ⟨effect, emitted, out, _⟩ := mem_broadcast new
      rw [← handle_msg_call handled]
      exact .inr ⟨effect, emitted, effect_call_of_outgoing out⟩

def Addressed (cluster : Cluster) (net : Network) : Prop :=
  ∀ envelope ∈ net.inFlight, envelope.dest ∈ membersOf cluster ∧
    ∃ call, handleMsg envelope.link envelope.info = some call

theorem addressed_after (consumes : Consumes net id call rest flight)
    (addressed : Addressed cluster net) :
    Addressed cluster (afterCall cluster net id rest flight outcome submitted) := by
  intro envelope inside
  rcases List.mem_append.mp inside with old | new
  · exact addressed envelope (consumes.travelling _ old)
  · obtain ⟨_, _, _, link, signer, member, _⟩ := mem_broadcast new
    exact ⟨member, packetCall envelope.info.payload, by simp [handleMsg, validateSig, link, signer]⟩

end Deliveries

section Invariant

/-- The calls to come in a round: a vote is one that its sender has sent. -/
inductive Expected (round : Round) (nodes : String → RoundNode) : Call → Prop where
  | request : Expected round nodes (.recvRequest (roundRequest round))
  | proposal (name : String) : Expected round nodes (.recvPrePrepare (proposalOf round name))
  | vote (phase : Phase) (name : String) (member : name ∈ membersOf round.cluster)
      (sent : sentIn (nodes name) phase = true) :
      Expected round nodes (messageCall (voteOf round name phase))
  | checkpoint (chkpt : Checkpoint) : Expected round nodes (.recvCheckpoint chkpt)

/-- Once the request has been issued, every node is a node of the small machine;
what is counted or still to come has been sent, and what has been sent is
counted or still to come. -/
structure InRound (round : Round) (nodes : String → RoundNode) (net : Network) : Prop where
  issued : net.submitted ≠ []
  alive : ∀ id ∈ membersOf round.cluster, (net.replicas id).alive = true
  represents : ∀ id ∈ membersOf round.cluster,
    Represents round id (net.replicas id).worker (nodes id)
  sound : ∀ id, Sound (quorumOf round.cluster) (nodes id)
  addressed : Addressed round.cluster net
  expected : ∀ id call, Incoming net id call → Expected round nodes call
  counted : ∀ phase id, ∀ name ∈ countedIn (nodes id) phase,
    name ∈ membersOf round.cluster ∧ sentIn (nodes name) phase = true
  short : ∀ id, (nodes id).decided = false → id ∈ (nodes id).got →
    ((nodes id).got.length : Int) < quorumOf round.cluster
  request : ∀ id ∈ membersOf round.cluster, (nodes id).stored = true ∨
    Incoming net id (.recvRequest (roundRequest round))
  proposal : ∀ id ∈ membersOf round.cluster, (nodes id).stored = true →
    ((nodes id).sentPrepare = true ∨ (nodes id).decided = true) ∨
      ∃ name, Incoming net id (.recvPrePrepare (proposalOf round name))
  votes : ∀ phase, ∀ name ∈ membersOf round.cluster, sentIn (nodes name) phase = true →
    ∀ id ∈ membersOf round.cluster,
      (closedIn (nodes id) phase = true ∨ name ∈ countedIn (nodes id) phase) ∨
        Incoming net id (messageCall (voteOf round name phase))
  logged : ∀ id ∈ membersOf round.cluster, (nodes id).decided = true →
    ∃ decision, .insertChain decision ∈ (net.replicas id).log ∧
      decision.request = roundRequest round

variable {round : Round} {nodes later : String → RoundNode} {net : Network}

theorem round_call_of_expected {call : Call} (expected : Expected round nodes call) :
    RoundCall round call := by
  cases expected with
  | request => exact .request
  | proposal name => exact .prePrepare name
  | vote phase name _ _ =>
      cases phase with
      | prepare => exact .prepare name
      | commit => exact .commit name
  | checkpoint chkpt => exact .checkpoint chkpt

theorem expected_grows (grows : ∀ name, Grows (nodes name) (later name)) {call : Call}
    (expected : Expected round nodes call) : Expected round later call := by
  cases expected with
  | request => exact .request
  | proposal name => exact .proposal name
  | vote phase name member sent => exact .vote phase name member (grows_sent (grows name) phase sent)
  | checkpoint chkpt => exact .checkpoint chkpt

end Invariant

section OneTurn

variable {round : Round} {nodes : String → RoundNode} {net : Network} {id : String}
  {call : Call} {rest : List Call} {flight : List Envelope} {outcome : Outcome}
  {submitted : List Raaaa} {next : RoundNode}

theorem update_grows (grows : Grows (nodes id) next) (name : String) :
    Grows (nodes name) (Function.update nodes id next name) := by
  by_cases same : name = id
  · subst same
    rw [Function.update_self]
    exact grows
  · rw [Function.update_of_ne same]
    exact grows_refl _

/-- What was to come at a node is still to come, or the turn has handled it. -/
theorem conserved {node : String} {other : Call} {Goal : Prop}
    (consumes : Consumes net id call rest flight) (incoming : Incoming net node other)
    (handled : node = id → other = call → Goal) :
    Goal ∨ Incoming (afterCall round.cluster net id rest flight outcome submitted) node other := by
  rcases incoming_kept consumes incoming with ⟨here, same⟩ | left
  · exact .inl (handled here same)
  · exact .inr left

theorem expected_after (inRound : InRound round nodes net)
    (consumes : Consumes net id call rest flight) (member : id ∈ membersOf round.cluster)
    (came : Incoming net id call)
    (turn : Turn round (quorumOf round.cluster) id (nodes id) call outcome.effects next)
    {node : String} {other : Call}
    (incoming : Incoming (afterCall round.cluster net id rest flight outcome submitted) node other) :
    Expected round (Function.update nodes id next) other := by
  have grows := update_grows (turn_grows turn)
  rcases incoming_source consumes incoming with old | ⟨effect, emitted, leads⟩
  · exact expected_grows grows (inRound.expected node other old)
  · cases turn_leads_to turn emitted leads with
    | relay => exact expected_grows grows (inRound.expected id call came)
    | proposal name => exact .proposal name
    | vote phase sent =>
        refine .vote phase id member ?_
        rw [Function.update_self]
        exact sent
    | checkpoint chkpt => exact .checkpoint chkpt

theorem expected_vote {phase : Phase} {name : String}
    (expected : Expected round nodes (messageCall (voteOf round name phase))) :
    name ∈ membersOf round.cluster ∧ sentIn (nodes name) phase = true := by
  generalize same : messageCall (voteOf round name phase) = call at expected
  cases expected with
  | vote other voter member sent =>
      cases phase <;> cases other <;> cases same <;> exact ⟨member, sent⟩
  | _ => cases phase <;> cases same

theorem counted_after (inRound : InRound round nodes net) (came : Incoming net id call)
    (turn : Turn round (quorumOf round.cluster) id (nodes id) call outcome.effects next)
    (phase : Phase) (node name : String)
    (counted : name ∈ countedIn (Function.update nodes id next node) phase) :
    name ∈ membersOf round.cluster ∧
      sentIn (Function.update nodes id next name) phase = true := by
  have known : name ∈ countedIn (nodes node) phase ∨
      call = messageCall (voteOf round name phase) := by
    by_cases same : node = id
    · subst same
      rw [Function.update_self] at counted
      exact turn_counted turn phase counted
    · rw [Function.update_of_ne same] at counted
      exact .inl counted
  have before : name ∈ membersOf round.cluster ∧ sentIn (nodes name) phase = true := by
    rcases known with old | rfl
    · exact inRound.counted phase node name old
    · exact expected_vote (inRound.expected id _ came)
  exact ⟨before.1, grows_sent (update_grows (turn_grows turn) name) phase before.2⟩

/-- A vote that has been sent is not needed any more, counted or still to come,
at every node. -/
theorem votes_after (inRound : InRound round nodes net)
    (consumes : Consumes net id call rest flight)
    (turn : Turn round (quorumOf round.cluster) id (nodes id) call outcome.effects next)
    (inTime : ∀ name, call = .recvPrepare (prepareOf name) → (nodes id).stored = true)
    (phase : Phase) (name : String) (member : name ∈ membersOf round.cluster)
    (sent : sentIn (Function.update nodes id next name) phase = true)
    (node : String) (peer : node ∈ membersOf round.cluster) :
    (closedIn (Function.update nodes id next node) phase = true ∨
        name ∈ countedIn (Function.update nodes id next node) phase) ∨
      Incoming (afterCall round.cluster net id rest flight outcome submitted) node
        (messageCall (voteOf round name phase)) := by
  have grows := update_grows (turn_grows turn) node
  have origin : sentIn (nodes name) phase = true ∨ name = id ∧
      .post ⟨voteOf round id phase, id⟩ ∈ outcome.effects ∧
        .spawn (messageCall (voteOf round id phase)) ∈ outcome.effects := by
    by_cases same : name = id
    · subst same
      rw [Function.update_self] at sent
      exact ((turn_announces turn).sent phase sent).imp_right fun announced => ⟨rfl, announced⟩
    · rw [Function.update_of_ne same] at sent
      exact .inl sent
  rcases origin with old | ⟨rfl, posted, spawned⟩
  · rcases inRound.votes phase name member old node peer with counted | incoming
    · exact .inl (counted.imp (grows_closed grows phase) (grows_counted grows phase))
    · apply conserved consumes incoming
      intro here same
      subst here
      rw [Function.update_self]
      have handled := turn_handled turn (quorum_positive round.cluster) (inRound.sound node)
      apply handled_vote handled phase name same.symm
      intro early
      subst early
      exact inTime name same.symm
  · exact .inr (incoming_everywhere posted spawned peer)

theorem proposal_after (inRound : InRound round nodes net)
    (consumes : Consumes net id call rest flight)
    (turn : Turn round (quorumOf round.cluster) id (nodes id) call outcome.effects next)
    (node : String) (peer : node ∈ membersOf round.cluster)
    (held : (Function.update nodes id next node).stored = true) :
    ((Function.update nodes id next node).sentPrepare = true ∨
        (Function.update nodes id next node).decided = true) ∨
      ∃ name, Incoming (afterCall round.cluster net id rest flight outcome submitted) node
        (.recvPrePrepare (proposalOf round name)) := by
  have grows := update_grows (turn_grows turn) node
  have handled := turn_handled turn (quorum_positive round.cluster) (inRound.sound id)
  have origin : (nodes node).stored = true ∨ node = id ∧ (next.sentPrepare = true ∨
      .spawn (.recvPrePrepare (proposalOf round id)) ∈ outcome.effects) := by
    by_cases same : node = id
    · subst same
      rw [Function.update_self] at held
      exact ((turn_announces turn).stored held).imp_right fun announced => ⟨rfl, announced⟩
    · rw [Function.update_of_ne same] at held
      exact .inl held
  rcases origin with old | ⟨rfl, sent | spawned⟩
  · rcases inRound.proposal node peer old with answered | ⟨name, incoming⟩
    · exact .inl (answered.imp grows.sentPrepare grows.decided)
    · refine (conserved consumes incoming ?_).imp_right fun left => ⟨name, left⟩
      intro here same
      subst here
      rw [Function.update_self]
      exact handled.proposal name same.symm
  · rw [Function.update_self]
    exact .inl (.inl sent)
  · exact .inr ⟨_, incoming_spawned spawned⟩

theorem turn_keeps_round (inRound : InRound round nodes net)
    (consumes : Consumes net id call rest flight) (member : id ∈ membersOf round.cluster)
    (came : Incoming net id call)
    (inTime : ∀ name, call = .recvPrepare (prepareOf name) → (nodes id).stored = true)
    (turn : Turn round (quorumOf round.cluster) id (nodes id) call outcome.effects next)
    (represents : Represents round id outcome.worker next) (ended : outcome.result ≠ .crash)
    (history : submitted ≠ []) :
    InRound round (Function.update nodes id next)
      (afterCall round.cluster net id rest flight outcome submitted) where
  issued := history
  alive node peer := by
    by_cases same : node = id
    · subst same
      simp only [afterCall, Function.update_self]
      exact decide_eq_true ended
    · simp only [afterCall, Function.update_of_ne same]
      exact inRound.alive node peer
  represents node peer := by
    by_cases same : node = id
    · subst same
      simp only [afterCall, Function.update_self]
      exact represents
    · simp only [afterCall, Function.update_of_ne same]
      exact inRound.represents node peer
  sound node := by
    by_cases same : node = id
    · subst same
      rw [Function.update_self]
      exact turn_sound turn (inRound.sound node)
    · rw [Function.update_of_ne same]
      exact inRound.sound node
  addressed := addressed_after consumes inRound.addressed
  expected _ _ incoming := expected_after inRound consumes member came turn incoming
  counted := counted_after inRound came turn
  short node := by
    by_cases same : node = id
    · subst same
      have own := counted_after inRound came turn .commit node node
      rw [Function.update_self] at own ⊢
      intro undecided counted
      exact turn_short turn (inRound.short node)
        (fun inside => (inRound.counted .commit node node inside).2) (fun inside => (own inside).2)
        undecided counted
    · rw [Function.update_of_ne same]
      exact inRound.short node
  request node peer := by
    rcases inRound.request node peer with held | incoming
    · exact .inl ((update_grows (turn_grows turn) node).stored held)
    · apply conserved consumes incoming
      intro here same
      subst here
      rw [Function.update_self]
      exact (turn_handled turn (quorum_positive round.cluster) (inRound.sound node)).request
        same.symm
  proposal := proposal_after inRound consumes turn
  votes := votes_after inRound consumes turn inTime
  logged node peer decided := by
    by_cases same : node = id
    · subst same
      simp only [afterCall, Function.update_self] at decided ⊢
      rcases (turn_announces turn).decided decided with old | ⟨decision, inserted, about⟩
      · obtain ⟨decision, inside, about⟩ := inRound.logged node peer old
        exact ⟨decision, List.mem_append_left _ inside, about⟩
      · exact ⟨decision, List.mem_append_right _ inserted, about⟩
    · simp only [afterCall, Function.update_of_ne same] at decided ⊢
      exact inRound.logged node peer decided

end OneTurn

section Runs

variable {round : Round} {nodes : String → RoundNode} {net after : Network} {event : NetEvent}

/-- The first call of `SendRequest` opens the round. -/
theorem send_request_opens (round : Round) (now : Instant) :
    runCall now (bootOf round.cluster (leaderOf round.cluster)).worker
        (.sendRequest ⟨some round.block, round.blockbyte⟩) =
      done { (bootOf round.cluster (leaderOf round.cluster)).worker with lastReqID := 2 }
        [.spawn (.recvRequest (roundRequest round)),
          .post ⟨.request (roundRequest round), leaderOf round.cluster⟩] := by
  have fresh : ¬round.block.number ≤ 1 := by
    rw [round.height]
    decide
  refine (if_neg fresh).trans ?_
  unfold issuedRequest
  rw [round.height]
  rfl

theorem start_has_nothing_incoming {cluster : Cluster} {id : String} {call : Call} :
    ¬Incoming (startNetwork cluster) id call := by
  rintro (owed | ⟨envelope, inside, _⟩)
  · cases owed
  · cases inside

theorem start_consumes (cluster : Cluster) (id : String) (call : Call) :
    Consumes (startNetwork cluster) id call [] [] := by
  constructor <;> intro item inside <;> cases inside

theorem round_opened (round : Round) {outcome : Outcome} {submitted : List Raaaa}
    (history : submitted ≠ [])
    (opens : outcome = done
      { (bootOf round.cluster (leaderOf round.cluster)).worker with lastReqID := 2 }
      [.spawn (.recvRequest (roundRequest round)),
        .post ⟨.request (roundRequest round), leaderOf round.cluster⟩]) :
    InRound round (fun _ => {})
      (afterCall round.cluster (startNetwork round.cluster) (leaderOf round.cluster) [] [] outcome
        submitted) := by
  have consumes := start_consumes round.cluster (leaderOf round.cluster)
    (.sendRequest ⟨some round.block, round.blockbyte⟩)
  subst opens
  constructor
  · exact history
  · intro id _
    by_cases same : id = leaderOf round.cluster
    · subst same
      simp only [afterCall, Function.update_self]
      rfl
    · simp only [afterCall, Function.update_of_ne same]
      rfl
  · intro id _
    by_cases same : id = leaderOf round.cluster
    · subst same
      simp only [afterCall, Function.update_self]
      exact start_represents round _ 2
    · simp only [afterCall, Function.update_of_ne same]
      exact start_represents round id 1
  · intro id
    refine ⟨List.nodup_nil, List.nodup_nil, fun _ => ⟨rfl, rfl⟩, ?_, fun finished => finished⟩
    have positive := quorum_positive round.cluster
    simpa using positive
  · exact addressed_after consumes fun envelope inside => by cases inside
  · intro id call incoming
    rcases incoming_source consumes incoming with old | ⟨effect, emitted, leads⟩
    · exact absurd old start_has_nothing_incoming
    · simp only [done, List.mem_cons, List.not_mem_nil, or_false] at emitted
      rcases emitted with rfl | rfl
      · obtain rfl := Option.some.inj leads
        exact .request
      · obtain rfl := Option.some.inj leads
        exact .request
  · intro phase id name counted
    cases phase <;> cases counted
  · intro id _ counted
    cases counted
  · intro id member
    have sent : .post ⟨.request (roundRequest round), leaderOf round.cluster⟩ ∈
        (done { (bootOf round.cluster (leaderOf round.cluster)).worker with lastReqID := 2 }
          [.spawn (.recvRequest (roundRequest round)),
            .post ⟨.request (roundRequest round), leaderOf round.cluster⟩]).effects := by
      simp [done]
    exact .inr (incoming_everywhere sent (by simp [done, messageCall]) member)
  · intro id _ held
    cases held
  · intro phase name _ sent
    cases phase <;> cases sent
  · intro id _ finished
    cases finished

theorem start_step_opens_round (scheduled : Scheduled round (startNetwork round.cluster) event)
    (stepped : netStep round.cluster (startNetwork round.cluster) event = some after) :
    ∃ nodes, InRound round nodes after := by
  cases event with
  | submit now raaaa =>
      obtain ⟨_, rfl⟩ := scheduled
      obtain rfl := Option.some.inj stepped
      exact ⟨_, round_opened round (by simp [startNetwork]) (send_request_opens round now)⟩
  | deliver now index => cases stepped
  | resume now id index =>
      simp only [netStep] at stepped
      split_ifs at stepped
      cases stepped
  | redeliver now index => exact scheduled.elim
  | inject envelope => exact scheduled.elim

/-- Which envelopes are in flight matters, not their order. -/
theorem in_round_of_flight (inRound : InRound round nodes net) {flight : List Envelope}
    (same : ∀ envelope, envelope ∈ flight ↔ envelope ∈ net.inFlight) :
    InRound round nodes { net with inFlight := flight } := by
  have incoming : ∀ id call, Incoming { net with inFlight := flight } id call ↔
      Incoming net id call := by
    intro id call
    unfold Incoming
    simp only [same]
  refine ⟨inRound.issued, inRound.alive, inRound.represents, inRound.sound, ?_, ?_, inRound.counted,
    inRound.short, ?_, ?_, ?_, inRound.logged⟩
  · intro envelope inside
    exact inRound.addressed envelope ((same envelope).mp inside)
  · simpa only [incoming] using inRound.expected
  · simpa only [incoming] using inRound.request
  · simpa only [incoming] using inRound.proposal
  · simpa only [incoming] using inRound.votes

/-- A node that handles a Prepare in time has the request. -/
theorem stored_in_time {owner name : String} {worker : Worker} {node : RoundNode}
    (represents : Represents round owner worker node)
    (sound : Sound (quorumOf round.cluster) node)
    (inTime : PrepareInTime round worker (.recvPrepare (prepareOf name))) :
    node.stored = true := by
  cases finished : node.decided with
  | true => exact stored_of_sent (quorum_positive round.cluster) sound (sound.settled finished)
  | false =>
      obtain ⟨slot, _, frame⟩ := represents.opened finished
      rcases inTime _ rfl with held | reached
      · exact frame.request.symm.trans held
      · rw [round.height, frame.head] at reached
        exact absurd reached (by decide)

theorem step_keeps_round (inRound : InRound round nodes net) (guard : RoundGuard round net event)
    (stepped : netStep round.cluster net event = some after) :
    ∃ later, InRound round later after := by
  cases step_moves stepped with
  | ran now id rest call flight source member alive owed travelling kept =>
      have came : Incoming net id call := by
        cases source with
        | submit now raaaa => exact absurd guard.scheduled.1 inRound.issued
        | deliver now index envelope _ found handled =>
            exact .inr ⟨envelope, List.mem_of_getElem? found, rfl, handled⟩
        | redeliver now index envelope _ found handled => exact guard.scheduled.elim
        | resume now _ index _ owed => exact .inl (List.mem_of_getElem? owed)
      have history : submittedAfter net event ≠ [] := by
        cases event with
        | submit now raaaa => simp [submittedAfter]
        | _ => exact inRound.issued
      have consumes : Consumes net id call rest flight := by
        refine ⟨?_, ?_, travelling, kept⟩
        · intro other inside
          rcases owed with rfl | ⟨index, _, rfl⟩
          · exact inside
          · exact List.mem_of_mem_eraseIdx inside
        · intro other inside
          rcases owed with rfl | ⟨index, taken, rfl⟩
          · exact .inl inside
          · exact mem_erase_idx_or taken inside
      have represents := inRound.represents id member
      have sound := inRound.sound id
      obtain ⟨next, turn, represented, ended⟩ := run_call_simulates now
        (round_call_of_expected (inRound.expected id call came)) represents sound
      refine ⟨_, turn_keeps_round inRound consumes member came ?_ turn represented ended history⟩
      intro name same
      subst same
      exact stored_in_time represents sound (guard.inTime id _ source)
  | idle flight travelling kept =>
      refine ⟨nodes, in_round_of_flight inRound fun envelope => ⟨travelling envelope, ?_⟩⟩
      intro inside
      obtain ⟨member, call, handled⟩ := inRound.addressed envelope inside
      rcases kept envelope inside with left | refused | inactive
      · exact left
      · exact absurd (handled.symm.trans refused) (by simp)
      · exact absurd ⟨member, inRound.alive _ member⟩ inactive
  | injected envelope put =>
      subst put
      exact guard.scheduled.elim

theorem run_in_round {events : List NetEvent}
    (run : Run (netStep round.cluster) (RoundGuard round) (startNetwork round.cluster) events net) :
    net = startNetwork round.cluster ∨ ∃ nodes, InRound round nodes net := by
  refine run_invariant (fun state => state = startNetwork round.cluster ∨
    ∃ nodes, InRound round nodes state) ?_ run (.inl rfl)
  intro state event after guard stepped before
  rcases before with rfl | ⟨nodes, inRound⟩
  · exact .inr (start_step_opens_round guard.scheduled stepped)
  · exact .inr (step_keeps_round inRound guard stepped)

end Runs

section Completion

variable {round : Round} {nodes : String → RoundNode} {net : Network}

theorem quiescent_has_nothing_incoming {cluster : Cluster} (quiet : Quiescent cluster net)
    {id : String} (member : id ∈ membersOf cluster) (call : Call) : ¬Incoming net id call := by
  rintro (owed | ⟨envelope, inside, _⟩)
  · rw [quiet.executed id member] at owed
    cases owed
  · rw [quiet.delivered] at inside
    cases inside

theorem quorum_le_members {cluster : Cluster} (many : 4 ≤ peersnumOf cluster) :
    quorumOf cluster ≤ peersnumOf cluster := by
  have size : (bootOf cluster (leaderOf cluster)).worker.N = peersnumOf cluster := rfl
  unfold quorumOf getQuorum
  rw [size]
  split_ifs <;> omega

theorem quorum_of_all_members {cluster : Cluster} (many : 4 ≤ peersnumOf cluster)
    {votes : List String} (all : ∀ name ∈ membersOf cluster, name ∈ votes) :
    quorumOf cluster ≤ (votes.length : Int) := by
  have count : (membersOf cluster).length ≤ votes.length :=
    ((members_nodup cluster).subperm all).length_le
  have enough := quorum_le_members many
  unfold peersnumOf at enough
  omega

theorem some_node_commits (inRound : InRound round nodes net)
    (many : 4 ≤ peersnumOf round.cluster) (quiet : Quiescent round.cluster net) :
    ∃ name ∈ membersOf round.cluster, (nodes name).sentCommit = true := by
  by_contra silent
  have unsent : ∀ name ∈ membersOf round.cluster, ¬(nodes name).sentCommit = true :=
    fun name member sent => silent ⟨name, member, sent⟩
  have prepared : ∀ name ∈ membersOf round.cluster, (nodes name).sentPrepare = true := by
    intro name member
    have nothing := quiescent_has_nothing_incoming quiet member
    have held := (inRound.request name member).resolve_right (nothing _)
    rcases inRound.proposal name member held with (sent | decided) | ⟨other, incoming⟩
    · exact sent
    · exact absurd ((inRound.sound name).settled decided) (unsent name member)
    · exact absurd incoming (nothing _)
  have leader := leader_member round.cluster
  have heard : ∀ name ∈ membersOf round.cluster, name ∈ (nodes (leaderOf round.cluster)).heard := by
    intro name member
    have counted := (inRound.votes .prepare name member (prepared name member) _ leader).resolve_right
      (quiescent_has_nothing_incoming quiet leader _)
    exact counted.resolve_left (unsent _ leader)
  exact unsent _ leader ((inRound.sound _).reached.mpr (quorum_of_all_members many heard))

/-- A node that has committed has counted a quorum of Prepares, and every other
node has counted them too. -/
theorem every_node_commits (inRound : InRound round nodes net)
    (many : 4 ≤ peersnumOf round.cluster) (quiet : Quiescent round.cluster net) (id : String)
    (member : id ∈ membersOf round.cluster) : (nodes id).sentCommit = true := by
  obtain ⟨first, _, sent⟩ := some_node_commits inRound many quiet
  by_contra unsent
  have heard : ∀ name ∈ (nodes first).heard, name ∈ (nodes id).heard := by
    intro name counted
    obtain ⟨voter, prepared⟩ := inRound.counted .prepare first name counted
    have arrived := (inRound.votes .prepare name voter prepared id member).resolve_right
      (quiescent_has_nothing_incoming quiet member _)
    exact arrived.resolve_left unsent
  have count : (nodes first).heard.length ≤ (nodes id).heard.length :=
    ((inRound.sound first).heardOnce.subperm heard).length_le
  have enough := (inRound.sound first).reached.mp sent
  exact unsent ((inRound.sound id).reached.mpr (by omega))

theorem every_node_decides (inRound : InRound round nodes net)
    (many : 4 ≤ peersnumOf round.cluster) (quiet : Quiescent round.cluster net) (id : String)
    (member : id ∈ membersOf round.cluster) : (nodes id).decided = true := by
  by_contra undecided
  have got : ∀ name ∈ membersOf round.cluster, name ∈ (nodes id).got := by
    intro name voter
    have sent := every_node_commits inRound many quiet name voter
    have arrived := (inRound.votes .commit name voter sent id member).resolve_right
      (quiescent_has_nothing_incoming quiet member _)
    exact arrived.resolve_left undecided
  have short := inRound.short id (by simpa using undecided) (got id member)
  have enough := quorum_of_all_members many got
  omega

end Completion

/-- In every run of a round that has come to rest, every node has decided on the
request, and its chain has grown by one. -/
theorem fault_free_round_completes (round : Round) (many : 4 ≤ peersnumOf round.cluster)
    (events : List NetEvent) (last : Network)
    (run : Run (netStep round.cluster) (RoundGuard round) (startNetwork round.cluster) events last)
    (issued : last.submitted ≠ []) (quiet : Quiescent round.cluster last) (id : String)
    (member : id ∈ membersOf round.cluster) :
    (last.replicas id).worker.currentBlock =
        ((startNetwork round.cluster).replicas id).worker.currentBlock + 1 ∧
      ∃ decision, .insertChain decision ∈ (last.replicas id).log ∧
        decision.request = roundRequest round := by
  rcases run_in_round run with rfl | ⟨nodes, inRound⟩
  · exact absurd rfl issued
  · have decided := every_node_decides inRound many quiet id member
    exact ⟨(inRound.represents id member).decided decided, inRound.logged id member decided⟩

section FourNodeRounds

def fourRound : Round := ⟨fourCluster, plainBlock 2 0, [], rfl, by decide⟩

/-- A scheduler that opens the round, runs what nodes owe first, and delivers
the envelopes that are held back only when nothing else is left. -/
def nextEvent (round : Round) (heldBack : Envelope → Bool) (net : Network) : Option NetEvent :=
  if net.submitted.isEmpty then some (.submit 0 ⟨some round.block, round.blockbyte⟩)
  else
    match (membersOf round.cluster).find? fun id => !(net.replicas id).pending.isEmpty with
    | some id => some (.resume 0 id 0)
    | none =>
        ((net.inFlight.findIdx? fun envelope => !heldBack envelope).or
          (net.inFlight.findIdx? heldBack)).map (.deliver 0)

def lacksRequest (envelope : Envelope) : Bool :=
  match packetMessage envelope.info.payload with
  | some (.request _) => false
  | _ => true

def informsD (envelope : Envelope) : Bool :=
  envelope.dest == nodeD &&
    match packetMessage envelope.info.payload with
    | some (.request _) => true
    | some (.prePrepare _) => true
    | _ => false

def isScheduled (round : Round) (net : Network) : NetEvent → Bool
  | .submit _ raaaa => net.submitted.isEmpty && raaaa == ⟨some round.block, round.blockbyte⟩
  | .deliver _ _ => true
  | .resume _ _ _ => true
  | .redeliver _ _ => false
  | .inject _ => false

theorem scheduled_of_test {round : Round} {net : Network} {event : NetEvent}
    (passed : isScheduled round net event = true) : Scheduled round net event := by
  cases event with
  | submit now raaaa =>
      rw [isScheduled, Bool.and_eq_true, List.isEmpty_iff, beq_iff_eq] at passed
      exact passed
  | deliver now index => trivial
  | resume now id index => trivial
  | redeliver now index => cases passed
  | inject envelope => cases passed

def isInTime (round : Round) (worker : Worker) : Call → Bool
  | .recvPrepare prep => (worker.reqStore.lookup prep.requestDigest).isSome ||
      decide (round.block.number ≤ worker.currentBlock)
  | _ => true

theorem in_time_of_test {round : Round} {worker : Worker} {call : Call}
    (passed : isInTime round worker call = true) : PrepareInTime round worker call := by
  intro prep same
  subst same
  rw [isInTime, Bool.or_eq_true, decide_eq_true_eq] at passed
  exact passed

def isQuiescent (cluster : Cluster) (net : Network) : Bool :=
  net.inFlight.isEmpty && (membersOf cluster).all fun id => (net.replicas id).pending.isEmpty

theorem quiescent_of_test {cluster : Cluster} {net : Network}
    (passed : isQuiescent cluster net = true) : Quiescent cluster net := by
  rw [isQuiescent, Bool.and_eq_true, List.isEmpty_iff, List.all_eq_true] at passed
  exact ⟨passed.1, fun id member => List.isEmpty_iff.mp (passed.2 id member)⟩

/-- The request reaches every node before anything else does. -/
def orderlySchedule : List NetEvent :=
  drive (netStep fourCluster) (nextEvent fourRound lacksRequest) 150 (startNetwork fourCluster)

theorem fault_free_round_completes_in_order :
    ∃ last, Run (netStep fourCluster) (RoundGuard fourRound) (startNetwork fourCluster)
        orderlySchedule last ∧ Quiescent fourCluster last ∧
      (last.replicas nodeD).worker.currentBlock = 2 ∧
      ∃ decision, .insertChain decision ∈ (last.replicas nodeD).log ∧
        decision.request = roundRequest fourRound := by
  obtain ⟨last, run, passed⟩ : ∃ last,
      Run (netStep fourCluster) (RoundGuard fourRound) (startNetwork fourCluster)
        orderlySchedule last ∧ (!last.submitted.isEmpty && isQuiescent fourCluster last) = true :=
    run_reaching
      (fun net event => isScheduled fourRound net event &&
        checksCalls fourCluster (fun _ => isInTime fourRound) net event)
      (fun last : Network => !last.submitted.isEmpty && isQuiescent fourCluster last)
      (fun net event tested => by
        rw [Bool.and_eq_true] at tested
        exact ⟨scheduled_of_test tested.1,
          each_call_of_checks (fun _ _ _ => in_time_of_test) tested.2⟩)
      (by decide +kernel)
  rw [Bool.and_eq_true, Bool.not_eq_true', ← Bool.not_eq_true, List.isEmpty_iff] at passed
  have quiet := quiescent_of_test passed.2
  exact ⟨last, run, quiet, fault_free_round_completes fourRound (by decide) orderlySchedule last
    run passed.1 quiet nodeD (by decide)⟩

/-- Everything else reaches node D before the request does. -/
def lateSchedule : List NetEvent :=
  drive (netStep fourCluster) (nextEvent fourRound informsD) 150 (startNetwork fourCluster)

/-- The Prepares of the other nodes have come to node D before the request and
are lost there: all is delivered, the others have decided, and D has not. -/
theorem late_node_misses_round :
    ∃ last, Run (netStep fourCluster) (Scheduled fourRound) (startNetwork fourCluster)
        lateSchedule last ∧
      last.submitted = [⟨some (plainBlock 2 0), []⟩] ∧ Quiescent fourCluster last ∧
      (last.replicas nodeA).worker.currentBlock = 2 ∧
      (last.replicas nodeD).worker.currentBlock = 1 ∧
      ∀ decision, .insertChain decision ∉ (last.replicas nodeD).log := by
  obtain ⟨last, run, passed⟩ : ∃ last,
      Run (netStep fourCluster) (Scheduled fourRound) (startNetwork fourCluster)
        lateSchedule last ∧
      ((last.submitted == [⟨some (plainBlock 2 0), []⟩] && isQuiescent fourCluster last) &&
        ((last.replicas nodeA).worker.currentBlock == 2 &&
          (last.replicas nodeD).worker.currentBlock == 1) &&
        (decisionsOf (last.replicas nodeD).log).isEmpty) = true :=
    run_reaching (isScheduled fourRound)
      (fun last : Network =>
        (last.submitted == [⟨some (plainBlock 2 0), []⟩] && isQuiescent fourCluster last) &&
          ((last.replicas nodeA).worker.currentBlock == 2 &&
            (last.replicas nodeD).worker.currentBlock == 1) &&
          (decisionsOf (last.replicas nodeD).log).isEmpty)
      (fun _ _ => scheduled_of_test) (by decide +kernel)
  simp only [Bool.and_eq_true, beq_iff_eq, List.isEmpty_iff] at passed
  obtain ⟨⟨⟨history, quiet⟩, headA, headD⟩, none⟩ := passed
  refine ⟨last, run, history, quiescent_of_test quiet, headA, headD, ?_⟩
  intro decision inside
  have listed := mem_decisions_of.mpr inside
  rw [none] at listed
  cases listed

end FourNodeRounds

end PbftBlock.FaultFreeRound
