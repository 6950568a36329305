import PbftBlock.ConsensusNetwork
import PbftBlock.NodeContents

/-!
# Laws on what travels and what is held

A wire law restricts the messages in flight and the calls nodes still owe, and
a content law what honest nodes hold. Both may refer to a fixed record of
histories that the run does not exceed: a message is authentic when its sender's
history, as recorded, contains it.
-/

namespace PbftBlock.NetworkContents

open PbftBlock.ConsensusMessages PbftBlock.ConsensusWorker PbftBlock.ConsensusBasics
open PbftBlock.ConsensusHandlers PbftBlock.HandlerActions PbftBlock.ActionChanges
open PbftBlock.NodeMachine PbftBlock.NodeContents PbftBlock.ConsensusNetwork
open PbftBlock.Library.GuardedRuns

set_option autoImplicit false

def Honest (cluster : Cluster) (byz : Finset String) (id : String) : Prop :=
  id ∈ membersOf cluster ∧ id ∉ byz

def Within (cluster : Cluster) (byz : Finset String) (record : String → List Effect)
    (net : Network) : Prop :=
  ∀ id, Honest cluster byz id → ∀ effect ∈ (net.replicas id).log, effect ∈ record id

structure NetLawful (cluster : Cluster) (byz : Finset String) (wire : Message → Prop)
    (law : ContentLaw) (net : Network) : Prop where
  held : ∀ id, Honest cluster byz id → Lawful law (net.replicas id).worker
  identity : ∀ id, identityOf (net.replicas id).worker =
    ⟨id, leaderOf cluster, 1, peersnumOf cluster, true⟩
  owed : ∀ id, Honest cluster byz id → ∀ call ∈ (net.replicas id).pending,
    ∃ msg, callMessage call = some msg ∧ wire msg
  travelling : ∀ envelope ∈ net.inFlight, envelope.dest ∉ byz →
    ∀ call, handleMsg envelope.link envelope.info = some call → ∀ msg, callMessage call = some msg → wire msg
  issuer : ∀ id, Honest cluster byz id → ∀ request sender,
    .post ⟨.request request, sender⟩ ∈ (net.replicas id).log → id = leaderOf cluster
  history : ∀ id, Honest cluster byz id → ∀ effect ∈ (net.replicas id).log,
    Explained law (getQuorum (net.replicas id).worker) id effect

def quorumOf (cluster : Cluster) : Int := getQuorum (bootOf cluster (leaderOf cluster)).worker

theorem lawful_quorum {cluster : Cluster} {byz : Finset String} {wire : Message → Prop}
    {law : ContentLaw} {net : Network} (lawful : NetLawful cluster byz wire law net) (id : String) :
    getQuorum (net.replicas id).worker = quorumOf cluster := by
  have size : (net.replicas id).worker.N = peersnumOf cluster :=
    congrArg Identity.N (lawful.identity id)
  unfold quorumOf getQuorum
  rw [size]
  rfl

theorem lawful_history {cluster : Cluster} {byz : Finset String} {wire : Message → Prop}
    {law : ContentLaw} {net : Network} (lawful : NetLawful cluster byz wire law net) (id : String)
    (honest : Honest cluster byz id) (effect : Effect) (inside : effect ∈ (net.replicas id).log) :
    Explained law (quorumOf cluster) id effect := by
  rw [← lawful_quorum lawful id]
  exact lawful.history id honest effect inside

/-- What has to be shown of a wire law and a content law: the calls honest
nodes run bring lawful contents, and what honest nodes post, what they hand on
from their certificates and what the adversary sends them is lawful on the wire. -/
structure Governs (cluster : Cluster) (byz : Finset String)
    (allowed : Network → NetEvent → Prop) (record : String → List Effect) (wire : Message → Prop)
    (law : ContentLaw) : Prop where
  honest : ∀ net event id call, allowed net event → Source cluster net event id call → id ∉ byz
  brings : ∀ net event id call, NetLawful cluster byz wire law net → allowed net event →
    Source cluster net event id call → Honest cluster byz id →
    (∀ msg, callMessage call = some msg → wire msg) → Brings law (net.replicas id).worker call
  posts : ∀ id quorum msg sender, Honest cluster byz id → .post ⟨msg, sender⟩ ∈ record id →
    Explained law quorum id (.post ⟨msg, sender⟩) → wire msg
  votes : ∀ prep, law.prepare prep → wire (.prepare prep)
  injected : ∀ net envelope call msg, allowed net (.inject envelope) →
    Within cluster byz record net → envelope.dest ∉ byz →
    handleMsg envelope.link envelope.info = some call → callMessage call = some msg → wire msg

theorem start_net_lawful (cluster : Cluster) (byz : Finset String) (wire : Message → Prop)
    (law : ContentLaw) : NetLawful cluster byz wire law (startNetwork cluster) where
  held id _ := start_lawful law id (leaderOf cluster) (peersnumOf cluster)
  identity _ := rfl
  owed id _ call member := by
    simp [startNetwork, bootOf, boot] at member
  travelling envelope member := by
    simp [startNetwork] at member
  issuer id _ request sender member := by
    simp [startNetwork, bootOf, boot] at member
  history id _ effect member := by
    simp [startNetwork, bootOf, boot] at member

variable {cluster : Cluster} {byz : Finset String} {allowed : Network → NetEvent → Prop}
  {record : String → List Effect} {wire : Message → Prop} {law : ContentLaw}
  {net after : Network} {event : NetEvent}

theorem step_log_grows (stepped : netStep cluster net event = some after) (id : String)
    (effect : Effect) (member : effect ∈ (net.replicas id).log) :
    effect ∈ (after.replicas id).log := by
  cases step_moves stepped with
  | ran now node rest call flight source _ alive owed travelling kept =>
      by_cases same : id = node
      · subst same
        simp only [Function.update_self]
        exact List.mem_append_left _ member
      · simp only [Function.update_of_ne same]
        exact member
  | idle flight travelling kept => exact member
  | injected envelope put => exact member

theorem source_wire (lawful : NetLawful cluster byz wire law net) {id : String} {call : Call}
    (honest : Honest cluster byz id) (source : Source cluster net event id call) (msg : Message)
    (carried : callMessage call = some msg) : wire msg := by
  cases source with
  | submit now raaaa => cases carried
  | deliver now index envelope _ found handled =>
      exact lawful.travelling envelope (List.mem_of_getElem? found) honest.2 call handled msg carried
  | redeliver now index envelope _ found handled =>
      exact lawful.travelling envelope (List.mem_of_getElem? found) honest.2 call handled msg carried
  | resume now _ index _ owed =>
      obtain ⟨owedMsg, same, lawfulMsg⟩ := lawful.owed id honest call (List.mem_of_getElem? owed)
      obtain rfl := Option.some.inj (same.symm.trans carried)
      exact lawfulMsg

theorem handle_msg_call {nodePK : String} {info : CommunicationInfo} {call : Call}
    (handled : handleMsg nodePK info = some call) : packetCall info.payload = call := by
  unfold handleMsg at handled
  split_ifs at handled
  exact Option.some.inj handled

theorem packet_call_ne_send_request (packet : Packet) (raaaa : Raaaa) :
    packetCall packet ≠ .sendRequest raaaa := by
  rcases packet with ⟨msg, _⟩ | ⟨msg, _, _⟩ | _
  · cases msg <;> simp [packetCall, messageCall]
  · cases msg <;> simp [packetCall, messageCall]
  · simp [packetCall]

theorem source_send_request (lawful : NetLawful cluster byz wire law net) {id : String}
    {raaaa : Raaaa} (honest : Honest cluster byz id)
    (source : Source cluster net event id (.sendRequest raaaa)) :
    id = leaderOf cluster ∧ ∃ now, event = .submit now raaaa := by
  cases source with
  | submit now _ => exact ⟨rfl, now, rfl⟩
  | deliver now index envelope _ found handled =>
      exact absurd (handle_msg_call handled) (packet_call_ne_send_request _ _)
  | redeliver now index envelope _ found handled =>
      exact absurd (handle_msg_call handled) (packet_call_ne_send_request _ _)
  | resume now _ index _ owed =>
      obtain ⟨msg, carried, _⟩ := lawful.owed id honest _ (List.mem_of_getElem? owed)
      cases carried

theorem message_of_message_call (msg : Message) : callMessage (messageCall msg) = some msg := by
  cases msg <;> rfl

theorem mem_broadcast {id : String} {effects : List Effect} {envelope : Envelope}
    (member : envelope ∈ broadcast cluster id effects) :
    ∃ effect ∈ effects, outgoing effect = some envelope.info.payload ∧ envelope.link = id ∧
      envelope.info.signer = id ∧ envelope.dest ∈ membersOf cluster ∧ envelope.dest ≠ id := by
  unfold broadcast at member
  obtain ⟨packet, packed, inside⟩ := List.mem_flatMap.mp member
  obtain ⟨effect, emitted, out⟩ := List.mem_filterMap.mp packed
  obtain ⟨dest, peer, rfl⟩ := List.mem_map.mp inside
  obtain ⟨memberDest, other⟩ := List.mem_filter.mp peer
  exact ⟨effect, emitted, out, rfl, rfl, memberDest, by simpa using other⟩

section OneCall

variable {now : Instant} {id : String} {rest : List Call} {call : Call}

structure CallLawful (cluster : Cluster) (wire : Message → Prop) (law : ContentLaw) (id : String)
    (worker : Worker) (outcome : Outcome) : Prop where
  held : Lawful law outcome.worker
  owed : ∀ started, .spawn started ∈ outcome.effects →
    ∃ msg, callMessage started = some msg ∧ wire msg
  travelling : ∀ envelope ∈ broadcast cluster id outcome.effects,
    ∀ called, handleMsg envelope.link envelope.info = some called →
    ∀ msg, callMessage called = some msg → wire msg
  issuer : ∀ request sender, .post ⟨.request request, sender⟩ ∈ outcome.effects →
    id = leaderOf cluster
  history : ∀ effect ∈ outcome.effects, Explained law (getQuorum worker) id effect

theorem call_lawful (governs : Governs cluster byz allowed record wire law)
    (lawful : NetLawful cluster byz wire law net) (guard : allowed net event)
    (source : Source cluster net event id call) (honest : Honest cluster byz id)
    (recorded : ∀ effect ∈ (runCall now (net.replicas id).worker call).effects,
      effect ∈ record id) :
    CallLawful cluster wire law id (net.replicas id).worker
      (runCall now (net.replicas id).worker call) := by
  have brought := governs.brings net event id call lawful guard source honest
    (source_wire lawful honest source)
  have held := lawful.held id honest
  have named : (net.replicas id).worker.nodeID = id := congrArg Identity.nodeID (lawful.identity id)
  have explained : ∀ effect ∈ (runCall now (net.replicas id).worker call).effects,
      Explained law (getQuorum (net.replicas id).worker) id effect := by
    intro effect member
    have known := call_explained brought held member
    rwa [named] at known
  have posted : ∀ msg sender,
      .post ⟨msg, sender⟩ ∈ (runCall now (net.replicas id).worker call).effects → wire msg :=
    fun msg sender member =>
      governs.posts id _ msg sender honest (recorded _ member) (explained _ member)
  refine ⟨run_call_lawful brought held, ?_, ?_, ?_, explained⟩
  · intro started spawned
    obtain ⟨msg, carried, ⟨sender, member⟩ | ⟨prep, rfl, vote⟩⟩ := call_spawns brought held spawned
    · exact ⟨msg, carried, posted msg sender member⟩
    · exact ⟨_, carried, governs.votes prep vote⟩
  · intro envelope member called handled msg carried
    obtain ⟨effect, emitted, out, _⟩ := mem_broadcast member
    rw [← handle_msg_call handled] at carried
    cases effect with
    | post cmsg =>
        obtain packed := Option.some.inj out
        rw [← packed] at carried
        obtain rfl := Option.some.inj ((message_of_message_call cmsg.msg).symm.trans carried)
        exact posted cmsg.msg cmsg.sender emitted
    | transfer cmsg =>
        obtain packed := Option.some.inj out
        rw [← packed] at carried
        obtain rfl := Option.some.inj ((message_of_message_call cmsg.msg).symm.trans carried)
        exact source_wire lawful honest source _ (call_transfers brought held emitted)
    | postCheckpoint chkpt =>
        obtain packed := Option.some.inj out
        rw [← packed] at carried
        cases carried
    | spawn started => cases out
    | insertChain decision => cases out
  · intro request sender emitted
    obtain ⟨before, effects, after, _, _, action, member, _⟩ := call_output brought held emitted
    obtain ⟨raaaa, _, rfl, _⟩ := action_posts_request action member
    exact (source_send_request lawful honest source).1

end OneCall

theorem step_net_lawful (governs : Governs cluster byz allowed record wire law)
    (lawful : NetLawful cluster byz wire law net) (guard : allowed net event)
    (stepped : netStep cluster net event = some after)
    (within : Within cluster byz record after) : NetLawful cluster byz wire law after := by
  cases step_moves stepped with
  | ran now id rest call flight source member alive owed travelling kept =>
      have honest : Honest cluster byz id := ⟨member, governs.honest net event id call guard source⟩
      have recorded : ∀ effect ∈ (runCall now (net.replicas id).worker call).effects,
          effect ∈ record id := by
        intro effect emitted
        apply within id honest effect
        simp only [Function.update_self]
        exact List.mem_append_right _ emitted
      have called : CallLawful cluster wire law id (net.replicas id).worker
          (runCall now (net.replicas id).worker call) :=
        call_lawful governs lawful guard source honest recorded
      have sameNode := run_call_identity now (net.replicas id).worker call
      constructor
      · intro other otherHonest
        by_cases same : other = id
        · subst same
          simp only [Function.update_self]
          exact called.held
        · simpa only [Function.update_of_ne same] using lawful.held other otherHonest
      · intro other
        by_cases same : other = id
        · subst same
          simp only [Function.update_self]
          exact sameNode.trans (lawful.identity other)
        · simpa only [Function.update_of_ne same] using lawful.identity other
      · intro other otherHonest pending inside
        by_cases same : other = id
        · subst same
          simp only [Function.update_self] at inside
          rcases List.mem_append.mp inside with old | new
          · have before : pending ∈ (net.replicas other).pending := by
              rcases owed with rfl | ⟨index, _, rfl⟩
              · exact old
              · exact List.mem_of_mem_eraseIdx old
            exact lawful.owed other otherHonest pending before
          · obtain ⟨effect, emitted, started⟩ := List.mem_filterMap.mp new
            cases effect with
            | spawn spawned =>
                obtain rfl := Option.some.inj started
                exact called.owed spawned emitted
            | _ => cases started
        · simp only [Function.update_of_ne same] at inside
          exact lawful.owed other otherHonest pending inside
      · intro envelope inside reached
        rcases List.mem_append.mp inside with old | new
        · exact lawful.travelling envelope (travelling envelope old) reached
        · exact called.travelling envelope new
      · intro other otherHonest request sender inside
        by_cases same : other = id
        · subst same
          simp only [Function.update_self] at inside
          rcases List.mem_append.mp inside with old | new
          · exact lawful.issuer other otherHonest request sender old
          · exact called.issuer request sender new
        · simp only [Function.update_of_ne same] at inside
          exact lawful.issuer other otherHonest request sender inside
      · intro other otherHonest effect inside
        by_cases same : other = id
        · subst same
          simp only [Function.update_self] at inside ⊢
          have quorum : getQuorum (perform now (net.replicas other) rest call).worker =
              getQuorum (net.replicas other).worker := get_quorum_eq_of_identity sameNode
          rw [quorum]
          rcases List.mem_append.mp inside with old | new
          · exact lawful.history other otherHonest effect old
          · exact called.history effect new
        · simp only [Function.update_of_ne same] at inside ⊢
          exact lawful.history other otherHonest effect inside
  | idle flight travelling kept =>
      exact ⟨lawful.held, lawful.identity, lawful.owed,
        fun envelope inside => lawful.travelling envelope (travelling envelope inside),
        lawful.issuer, lawful.history⟩
  | injected envelope put =>
      subst put
      refine ⟨lawful.held, lawful.identity, lawful.owed, ?_, lawful.issuer, lawful.history⟩
      intro other inside reached call handled msg carried
      rcases List.mem_append.mp inside with old | new
      · exact lawful.travelling other old reached call handled msg carried
      · obtain rfl := List.mem_singleton.mp new
        exact governs.injected net other call msg guard within reached handled carried

theorem run_net_lawful (governs : Governs cluster byz allowed record wire law)
    {events : List NetEvent} {last : Network}
    (run : Run (netStep cluster) allowed (startNetwork cluster) events last)
    (within : Within cluster byz record last) : NetLawful cluster byz wire law last := by
  induction run with
  | start => exact start_net_lawful cluster byz wire law
  | next event prior guard stepped ih =>
      have before : Within cluster byz record _ := fun id honest effect member =>
        within id honest effect (step_log_grows stepped id effect member)
      exact step_net_lawful governs (ih before) guard stepped within

end PbftBlock.NetworkContents
