import PbftBlock.NodeMachine

/-!
# The network of nodes

Every message a node posts, forwards or checkpoints goes to all other peers in
an envelope signed by the node (`ConBroadcastLoop`, `ZhuanfaBroadcastLoop`,
`CheckpointBroadcastLoop` of `eth/handler.go`). `handleMsg` compares the
signature of the envelope with the key of the link it came on and hands the
inner message to its handler; the sender named inside is not looked at. An
envelope may be delivered in any order, again and again, or never.
-/

namespace PbftBlock.ConsensusNetwork

open PbftBlock.ConsensusMessages PbftBlock.ConsensusWorker PbftBlock.ConsensusHandlers
open PbftBlock.HandlerActions PbftBlock.NodeMachine
open PbftBlock.Library.GuardedRuns

set_option autoImplicit false

/-- The peers of `config.json`, the leader first, without repetition. -/
structure Cluster where
  leaderPort : String
  otherPorts : List String
  distinct : (leaderPort :: otherPorts).Nodup

def portsOf (cluster : Cluster) : List String := cluster.leaderPort :: cluster.otherPorts

def membersOf (cluster : Cluster) : List String := (portsOf cluster).map nodeAddress

def leaderOf (cluster : Cluster) : String := nodeAddress cluster.leaderPort

def peersnumOf (cluster : Cluster) : Int := (membersOf cluster).length

theorem node_address_injective : Function.Injective nodeAddress := by
  intro left right same
  have text := congrArg String.toList same
  apply String.toList_inj.mp
  simpa [nodeAddress] using text

theorem members_nodup (cluster : Cluster) : (membersOf cluster).Nodup :=
  cluster.distinct.map node_address_injective

theorem leader_member (cluster : Cluster) : leaderOf cluster ∈ membersOf cluster :=
  List.mem_map.mpr ⟨cluster.leaderPort, List.mem_cons_self, rfl⟩

def bootOf (cluster : Cluster) (id : String) : Replica :=
  boot id (leaderOf cluster) (peersnumOf cluster)

/-- The payloads of the message codes `ConMsg`, `Zhuanfa` and `Checkpoin`. -/
inductive Packet where
  | conMsg (msg : ConsensusMsg)
  | zhuanfa (msg : ConsensusMsg2)
  | checkpoin (chkpt : Checkpoint)
deriving DecidableEq

/-- `CommunicationInfo`: a payload with the identity whose key signed it. -/
structure CommunicationInfo where
  signer : String
  payload : Packet
deriving DecidableEq

structure Envelope where
  link : String
  dest : String
  info : CommunicationInfo
deriving DecidableEq

/-- `ValidateSig`, for signatures that cannot be forged: a signature verifies
under the key of its signer and no other. -/
def validateSig (nodePK : String) (cd : CommunicationInfo) : Bool := nodePK == cd.signer

def packetCall : Packet → Call
  | .conMsg msg => messageCall msg.msg
  | .zhuanfa msg => messageCall msg.msg
  | .checkpoin chkpt => .recvCheckpoint chkpt

/-- `handleMsg`: the handler to call, or `ErrIllegalSig` (none). -/
def handleMsg (nodePK : String) (cd : CommunicationInfo) : Option Call :=
  if validateSig nodePK cd then some (packetCall cd.payload) else none

def outgoing : Effect → Option Packet
  | .post msg => some (.conMsg msg)
  | .transfer msg => some (.zhuanfa msg)
  | .postCheckpoint chkpt => some (.checkpoin chkpt)
  | .spawn _ => none
  | .insertChain _ => none

def broadcast (cluster : Cluster) (id : String) (effects : List Effect) : List Envelope :=
  (effects.filterMap outgoing).flatMap fun packet =>
    ((membersOf cluster).filter fun dest => dest != id).map fun dest => ⟨id, dest, ⟨id, packet⟩⟩

/-- `submitted` is the history of the calls of `SendRequest`. -/
structure Network where
  replicas : String → Replica
  inFlight : List Envelope
  submitted : List Raaaa

def startNetwork (cluster : Cluster) : Network := ⟨bootOf cluster, [], []⟩

inductive NetEvent where
  | submit (now : Instant) (raaaa : Raaaa)
  | deliver (now : Instant) (index : Nat)
  | redeliver (now : Instant) (index : Nat)
  | resume (now : Instant) (id : String) (index : Nat)
  | inject (envelope : Envelope)
deriving DecidableEq

def runAt (cluster : Cluster) (now : Instant) (net : Network) (id : String) (rest : List Call)
    (call : Call) : Network :=
  let outcome := runCall now (net.replicas id).worker call
  { net with
    replicas := Function.update net.replicas id (absorb (net.replicas id) rest outcome)
    inFlight := net.inFlight ++ broadcast cluster id outcome.effects }

def receive (cluster : Cluster) (now : Instant) (net : Network) (envelope : Envelope) : Network :=
  match handleMsg envelope.link envelope.info with
  | none => net
  | some call =>
      if envelope.dest ∈ membersOf cluster ∧ (net.replicas envelope.dest).alive = true then
        runAt cluster now net envelope.dest (net.replicas envelope.dest).pending call
      else net

def netStep (cluster : Cluster) (net : Network) : NetEvent → Option Network
  | .submit now raaaa =>
      let leader := leaderOf cluster
      if (net.replicas leader).alive then
        some (runAt cluster now { net with submitted := net.submitted ++ [raaaa] } leader
          (net.replicas leader).pending (.sendRequest raaaa))
      else none
  | .deliver now index =>
      net.inFlight[index]?.map
        (receive cluster now { net with inFlight := net.inFlight.eraseIdx index })
  | .redeliver now index => net.inFlight[index]?.map (receive cluster now net)
  | .resume now id index =>
      if id ∈ membersOf cluster ∧ (net.replicas id).alive = true then
        (net.replicas id).pending[index]?.map
          (runAt cluster now net id ((net.replicas id).pending.eraseIdx index))
      else none
  | .inject envelope => some { net with inFlight := net.inFlight ++ [envelope] }

/-- The event makes node `id` run `call`. -/
inductive Source (cluster : Cluster) (net : Network) : NetEvent → String → Call → Prop where
  | submit (now : Instant) (raaaa : Raaaa) :
      Source cluster net (.submit now raaaa) (leaderOf cluster) (.sendRequest raaaa)
  | deliver (now : Instant) (index : Nat) (envelope : Envelope) (call : Call)
      (found : net.inFlight[index]? = some envelope)
      (handled : handleMsg envelope.link envelope.info = some call) :
      Source cluster net (.deliver now index) envelope.dest call
  | redeliver (now : Instant) (index : Nat) (envelope : Envelope) (call : Call)
      (found : net.inFlight[index]? = some envelope)
      (handled : handleMsg envelope.link envelope.info = some call) :
      Source cluster net (.redeliver now index) envelope.dest call
  | resume (now : Instant) (id : String) (index : Nat) (call : Call)
      (owed : (net.replicas id).pending[index]? = some call) :
      Source cluster net (.resume now id index) id call

/-- Every handler that is run meets a condition on its node's worker. -/
def EachCallAt (cluster : Cluster) (condition : String → Worker → Call → Prop) (net : Network)
    (event : NetEvent) : Prop :=
  ∀ id call, Source cluster net event id call → condition id (net.replicas id).worker call

def sourceOf (cluster : Cluster) (net : Network) : NetEvent → Option (String × Call)
  | .submit _ raaaa => some (leaderOf cluster, .sendRequest raaaa)
  | .deliver _ index =>
      net.inFlight[index]?.bind fun envelope =>
        (handleMsg envelope.link envelope.info).map fun call => (envelope.dest, call)
  | .redeliver _ index =>
      net.inFlight[index]?.bind fun envelope =>
        (handleMsg envelope.link envelope.info).map fun call => (envelope.dest, call)
  | .resume _ id index => (net.replicas id).pending[index]?.map fun call => (id, call)
  | .inject _ => none

theorem source_of_eq {cluster : Cluster} {net : Network} {event : NetEvent} {id : String}
    {call : Call} (source : Source cluster net event id call) :
    sourceOf cluster net event = some (id, call) := by
  cases source with
  | submit now raaaa => rfl
  | deliver now index envelope _ found handled => simp [sourceOf, found, handled]
  | redeliver now index envelope _ found handled => simp [sourceOf, found, handled]
  | resume now _ index _ owed => simp [sourceOf, owed]

def checksCalls (cluster : Cluster) (test : String → Worker → Call → Bool) (net : Network)
    (event : NetEvent) : Bool :=
  (sourceOf cluster net event).all fun source =>
    test source.1 (net.replicas source.1).worker source.2

theorem each_call_of_checks {cluster : Cluster} {test : String → Worker → Call → Bool}
    {condition : String → Worker → Call → Prop}
    (sound : ∀ id worker call, test id worker call = true → condition id worker call)
    {net : Network} {event : NetEvent} (checked : checksCalls cluster test net event = true) :
    EachCallAt cluster condition net event := by
  intro id call source
  unfold checksCalls at checked
  rw [source_of_eq source] at checked
  exact sound _ _ _ checked

def submittedAfter (net : Network) : NetEvent → List Raaaa
  | .submit _ raaaa => net.submitted ++ [raaaa]
  | _ => net.submitted

/-- What a step does: a handler runs at one node, or an envelope is consumed
without effect, or one is put on a link. -/
inductive Moves (cluster : Cluster) (net : Network) (event : NetEvent) : Network → Prop where
  | ran (now : Instant) (id : String) (rest : List Call) (call : Call) (flight : List Envelope)
      (source : Source cluster net event id call)
      (member : id ∈ membersOf cluster) (alive : (net.replicas id).alive = true)
      (owed : rest = (net.replicas id).pending ∨
        ∃ index, (net.replicas id).pending[index]? = some call ∧
          rest = (net.replicas id).pending.eraseIdx index)
      (travelling : ∀ envelope ∈ flight, envelope ∈ net.inFlight)
      (kept : ∀ envelope ∈ net.inFlight, envelope ∈ flight ∨
        envelope.dest = id ∧ handleMsg envelope.link envelope.info = some call) :
      Moves cluster net event
        ⟨Function.update net.replicas id (perform now (net.replicas id) rest call),
          flight ++ broadcast cluster id (runCall now (net.replicas id).worker call).effects,
          submittedAfter net event⟩
  | idle (flight : List Envelope) (travelling : ∀ envelope ∈ flight, envelope ∈ net.inFlight)
      (kept : ∀ envelope ∈ net.inFlight, envelope ∈ flight ∨
        handleMsg envelope.link envelope.info = none ∨
        ¬(envelope.dest ∈ membersOf cluster ∧ (net.replicas envelope.dest).alive = true)) :
      Moves cluster net event { net with inFlight := flight }
  | injected (envelope : Envelope) (put : event = .inject envelope) :
      Moves cluster net event { net with inFlight := net.inFlight ++ [envelope] }

variable {cluster : Cluster} {net after : Network} {event : NetEvent}

theorem receive_moves (now : Instant) (flight : List Envelope) (envelope : Envelope)
    (quiet : submittedAfter net event = net.submitted)
    (travelling : ∀ other ∈ flight, other ∈ net.inFlight)
    (kept : ∀ other ∈ net.inFlight, other ∈ flight ∨ other = envelope)
    (source : ∀ call, handleMsg envelope.link envelope.info = some call →
      Source cluster net event envelope.dest call) :
    Moves cluster net event (receive cluster now { net with inFlight := flight } envelope) := by
  unfold receive
  cases handled : handleMsg envelope.link envelope.info with
  | none =>
      apply Moves.idle flight travelling
      intro other member
      rcases kept other member with inside | rfl
      · exact .inl inside
      · exact .inr (.inl handled)
  | some call =>
      dsimp only
      split_ifs with active
      · have ran : Moves cluster net event _ := .ran now envelope.dest _ call flight
          (source call handled) active.1 active.2 (.inl rfl) travelling (by
            intro other member
            rcases kept other member with inside | rfl
            · exact .inl inside
            · exact .inr ⟨rfl, handled⟩)
        rw [quiet] at ran
        exact ran
      · apply Moves.idle flight travelling
        intro other member
        rcases kept other member with inside | rfl
        · exact .inl inside
        · exact .inr (.inr active)

theorem mem_erase_idx_or {α : Type*} {list : List α} {index : Nat} {erased item : α}
    (found : list[index]? = some erased) (member : item ∈ list) :
    item ∈ list.eraseIdx index ∨ item = erased := by
  obtain ⟨place, here⟩ := List.mem_iff_getElem?.mp member
  by_cases same : place = index
  · subst same
    exact .inr (Option.some.inj (here.symm.trans found))
  · exact .inl (List.mem_eraseIdx_iff_getElem?.mpr ⟨place, same, here⟩)

theorem step_moves (stepped : netStep cluster net event = some after) :
    Moves cluster net event after := by
  cases event with
  | submit now raaaa =>
      simp only [netStep] at stepped
      split_ifs at stepped with alive
      obtain rfl := Option.some.inj stepped
      exact .ran now _ _ _ net.inFlight (.submit now raaaa)
        (leader_member cluster) alive (.inl rfl)
        (fun _ member => member) (fun _ member => .inl member)
  | deliver now index =>
      obtain ⟨envelope, found, rfl⟩ := Option.map_eq_some_iff.mp stepped
      exact receive_moves now _ envelope rfl (fun _ member => List.mem_of_mem_eraseIdx member)
        (fun _ member => mem_erase_idx_or found member)
        (fun call handled => .deliver now index envelope call found handled)
  | redeliver now index =>
      obtain ⟨envelope, found, rfl⟩ := Option.map_eq_some_iff.mp stepped
      exact receive_moves now net.inFlight envelope rfl (fun _ member => member)
        (fun _ member => .inl member)
        (fun call handled => .redeliver now index envelope call found handled)
  | resume now id index =>
      simp only [netStep] at stepped
      split_ifs at stepped with active
      obtain ⟨call, owed, rfl⟩ := Option.map_eq_some_iff.mp stepped
      exact .ran now id _ call net.inFlight (.resume now id index call owed)
        active.1 active.2 (.inr ⟨index, owed, rfl⟩) (fun _ member => member)
        (fun _ member => .inl member)
  | inject envelope =>
      obtain rfl := Option.some.inj stepped
      exact .injected envelope rfl

/-- Seen from one node, a run of the network is a run of that node. -/
theorem run_projects {allowed : Network → NetEvent → Prop} {events : List NetEvent} {last : Network}
    (run : Run (netStep cluster) allowed (startNetwork cluster) events last) (id : String) :
    ∃ history, Run NodeMachine.step (fun _ _ => True) (bootOf cluster id) history
      (last.replicas id) := by
  refine run_invariant (fun net => ∃ history, Run NodeMachine.step (fun _ _ => True)
    (bootOf cluster id) history (net.replicas id)) ?_ run ⟨[], .start⟩
  intro net event after _ stepped ⟨history, prior⟩
  cases step_moves stepped with
  | ran now node rest call flight source member alive owed travelling kept =>
      by_cases same : id = node
      · subst same
        simp only [Function.update_self]
        rcases owed with rfl | ⟨index, owed, rfl⟩
        · exact ⟨_, .next (.invoke now call) prior trivial
            (by simp [NodeMachine.step, alive])⟩
        · exact ⟨_, .next (.resume now index) prior trivial
            (by simp [NodeMachine.step, alive, owed])⟩
      · simp only [Function.update_of_ne same]
        exact ⟨history, prior⟩
  | idle flight travelling kept => exact ⟨history, prior⟩
  | injected envelope put => exact ⟨history, prior⟩

end PbftBlock.ConsensusNetwork
