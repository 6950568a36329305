import PbftBlock.Library.Channels
import PbftBlock.SubProtocols

/-!
# The goroutines of a peer

`Peer.run` of `p2p/peer.go` waits for what the other goroutines of the connection report: the
loop that reads messages, the loop that sends pings, the handlers of the protocols, and whoever
calls `WriteMsg` of a protocol. They run in any order, and those calls share a token for writing.
The pings and the answers to pings write without it; the goroutines that send the answers, which
nobody waits for, are left out.
-/

namespace PbftBlock.PeerRun

open PbftBlock.Library.Channels PbftBlock.Library.GuardedRuns PbftBlock.SubProtocols

set_option autoImplicit false

variable {Name Payload : Type} [LinearOrder Name] [DecidableEq Payload]

section Transcription

/-- The number may come from the other side, so it need not be one of those with a name. -/
abbrev DiscReason := UInt64

def discRequested : DiscReason := 0
def discNetworkError : DiscReason := 1
def discProtocolError : DiscReason := 2
def discSubprotocolError : DiscReason := 0x10

inductive PeerErrorCode where
  | invalidMsgCode
  | invalidMsg
deriving DecidableEq

/-- The errors, as far as the code tells them apart. -/
inductive Failure where
  | disc (reason : DiscReason)
  | peerError (code : PeerErrorCode)
  | other
deriving DecidableEq

def discReasonForError : Failure → DiscReason
  | .disc reason => reason
  | .peerError .invalidMsgCode => discProtocolError
  | .peerError .invalidMsg => discProtocolError
  | .other => discSubprotocolError

structure Msg (Payload : Type) where
  code : UInt64
  payload : Payload
deriving DecidableEq

/-- A call of `WriteMsg`, with the message that will be sent. -/
structure Call (Name Payload : Type) where
  rw : ProtoRW Name
  msg : Msg Payload
deriving DecidableEq

/-- Where `run` is: in its `select`, about to let the next write start, about to close the
channel, about to close the connection, waiting for the other goroutines, or done. -/
inductive Phase where
  | selecting
  | granting
  | closing
  | hanging
  | joining
  | returned
deriving DecidableEq

def Phase.looping : Phase → Bool
  | .selecting => true
  | .granting => true
  | _ => false

def Phase.closed : Phase → Bool
  | .hanging => true
  | .joining => true
  | .returned => true
  | _ => false

def Phase.connected : Phase → Bool
  | .joining => false
  | .returned => false
  | _ => true

inductive Reader (Name Payload : Type) where
  | reading
  | delivering (rw : ProtoRW Name) (msg : Msg Payload)
  | failing (err : Failure)
  | done
deriving DecidableEq

def Reader.delivers (receiving : List (ProtoRW Name)) : Reader Name Payload → Bool
  | .delivering rw _ => rw ∈ receiving
  | _ => false

def Reader.isDelivering : Reader Name Payload → Bool
  | .delivering _ _ => true
  | _ => false

def Reader.isFailing : Reader Name Payload → Bool
  | .failing _ => true
  | _ => false

inductive Pinger where
  | idle
  | failing
  | done
deriving DecidableEq

/-- The goroutines of a peer with `n` protocols and the channels between them. A handler is
working, waiting in `ReadMsg`, or has returned and will report an error. A call of `WriteMsg`
waits for the token, writes, or will report how the write ended. The last three fields are for
reference only: the messages read, those that the handlers have got, and the writes that have
ended. -/
structure Peer (Name Payload : Type) (n : ℕ) where
  phase : Phase
  reason : DiscReason
  requested : Bool
  writeStart : Buffer Unit 1
  writeErr : Buffer (Option Failure) 1
  readErr : Buffer Failure 1
  protoErr : Buffer Failure (n + 1)
  reader : Reader Name Payload
  pinger : Pinger
  working : List (ProtoRW Name)
  receiving : List (ProtoRW Name)
  returning : List Failure
  waiting : List (Call Name Payload)
  writing : List (Call Name Payload)
  reporting : List (Option Failure)
  read : List (Msg Payload)
  received : List (ProtoRW Name × Msg Payload)
  results : List (Call Name Payload × Option Failure)

inductive Event (Name Payload : Type) where
  | write (rw : ProtoRW Name) (msg : Msg Payload)
  | startWrite (call : Call Name Payload)
  | endWrite (call : Call Name Payload) (err : Option Failure)
  | reportWrite (err : Option Failure)
  | abandonWrite (call : Call Name Payload)
  | readMsg (msg : Msg Payload)
  | failRead
  | deliver
  | abandonDelivery
  | reportRead
  | failPing
  | reportPing
  | stopPing
  | receive (rw : ProtoRW Name)
  | endReceive (rw : ProtoRW Name)
  | handlerReturns (rw : ProtoRW Name) (err : Option Failure)
  | reportHandler (err : Failure)
  | takeWrite
  | takeRead
  | takeProto
  | takeDisc (reason : DiscReason)
  | grant
  | close
  | hangUp
  | join

/-- What is fixed for a peer: its type, its protocols in the order in which the map is ranged
over, and how the reason is read from a disconnect message. -/
structure Setup (Name Payload : Type) where
  nodeType : UInt64
  running : List (ProtoRW Name)
  reasonOf : Payload → DiscReason

variable (setup : Setup Name Payload)

def handleMsg (msg : Msg Payload) : Reader Name Payload :=
  match handle setup.running msg.code with
  | .pong => .reading
  | .disconnect => .failing (.disc (setup.reasonOf msg.payload))
  | .ignored => .reading
  | .outOfRange => .failing .other
  | .delivered rw code => .delivering rw ⟨code, msg.payload⟩

abbrev State := Peer Name Payload setup.running.length

/-- When an event can happen. A send needs room in its channel, a receive a value; a `select`
takes any of its cases that can proceed. -/
def enabled (s : State setup) : Event Name Payload → Prop
  | .write rw _ => rw ∈ setup.running
  | .startWrite call => call ∈ s.waiting ∧ s.writeStart.items ≠ []
  | .endWrite call err => call ∈ s.writing ∧ (err = none → s.phase.connected = true)
  | .reportWrite err => err ∈ s.reporting ∧ s.writeErr.Room
  | .abandonWrite call => call ∈ s.waiting ∧ s.phase.closed = true
  | .readMsg _ => s.reader = .reading ∧ s.phase.connected = true
  | .failRead => s.reader = .reading
  | .deliver => s.reader.delivers s.receiving = true
  | .abandonDelivery => s.reader.isDelivering = true ∧ s.phase.closed = true
  | .reportRead => s.reader.isFailing = true ∧ s.readErr.Room
  | .failPing => s.pinger = .idle
  | .reportPing => s.pinger = .failing ∧ s.protoErr.Room
  | .stopPing => s.pinger = .idle ∧ s.phase.closed = true
  | .receive rw => rw ∈ s.working
  | .endReceive rw => rw ∈ s.receiving ∧ s.phase.closed = true
  | .handlerReturns rw _ => rw ∈ s.working
  | .reportHandler err => err ∈ s.returning ∧ s.protoErr.Room
  | .takeWrite => s.phase = .selecting ∧ s.writeErr.items ≠ []
  | .takeRead => s.phase = .selecting ∧ s.readErr.items ≠ []
  | .takeProto => s.phase = .selecting ∧ s.protoErr.items ≠ []
  | .takeDisc _ => s.phase = .selecting
  | .grant => s.phase = .granting ∧ s.writeStart.Room
  | .close => s.phase = .closing
  | .hangUp => s.phase = .hanging
  | .join => s.phase = .joining ∧ s.reader = .done ∧ s.pinger = .done ∧
      s.working = [] ∧ s.receiving = [] ∧ s.returning = []

instance (s : State setup) (event : Event Name Payload) : Decidable (enabled setup s event) := by
  cases event <;> (dsimp only [enabled]; infer_instance)

def next (s : State setup) : Event Name Payload → State setup
  | .write rw msg =>
      match rw.writeCode msg.code with
      | none => s
      | some code => { s with waiting := ⟨rw, ⟨code, msg.payload⟩⟩ :: s.waiting }
  | .startWrite call =>
      { s with
        waiting := s.waiting.erase call
        writing := call :: s.writing
        writeStart := s.writeStart.rest }
  | .endWrite call err =>
      { s with
        writing := s.writing.erase call
        reporting := err :: s.reporting
        results := s.results ++ [(call, err)] }
  | .reportWrite err =>
      { s with reporting := s.reporting.erase err, writeErr := s.writeErr.put err }
  | .abandonWrite call => { s with waiting := s.waiting.erase call }
  | .readMsg msg => { s with reader := handleMsg setup msg, read := s.read ++ [msg] }
  | .failRead => { s with reader := .failing .other }
  | .deliver =>
      match s.reader with
      | .delivering rw msg =>
          { s with
            reader := .reading
            receiving := s.receiving.erase rw
            working := rw :: s.working
            received := s.received ++ [(rw, msg)] }
      | _ => s
  | .abandonDelivery => { s with reader := .failing .other }
  | .reportRead =>
      match s.reader with
      | .failing err => { s with reader := .done, readErr := s.readErr.put err }
      | _ => s
  | .failPing => { s with pinger := .failing }
  | .reportPing => { s with pinger := .done, protoErr := s.protoErr.put .other }
  | .stopPing => { s with pinger := .done }
  | .receive rw => { s with working := s.working.erase rw, receiving := rw :: s.receiving }
  | .endReceive rw => { s with receiving := s.receiving.erase rw, working := rw :: s.working }
  | .handlerReturns rw err =>
      { s with
        working := s.working.erase rw
        returning := err.getD .other :: s.returning }
  | .reportHandler err =>
      { s with returning := s.returning.erase err, protoErr := s.protoErr.put err }
  | .takeWrite =>
      match s.writeErr.items with
      | some _ :: _ =>
          { s with phase := .closing, reason := discNetworkError, writeErr := s.writeErr.rest }
      | none :: _ => { s with phase := .granting, writeErr := s.writeErr.rest }
      | [] => s
  | .takeRead =>
      match s.readErr.items with
      | .disc reason :: _ =>
          { s with phase := .closing, reason := reason, requested := true, readErr := s.readErr.rest }
      | _ => { s with phase := .closing, reason := discNetworkError, readErr := s.readErr.rest }
  | .takeProto =>
      match s.protoErr.items with
      | err :: _ =>
          if setup.nodeType = 4 then { s with protoErr := s.protoErr.rest }
          else
            { s with
              phase := .closing
              reason := discReasonForError err
              protoErr := s.protoErr.rest }
      | [] => s
  | .takeDisc reason => { s with phase := .closing, reason := reason }
  | .grant => { s with phase := .selecting, writeStart := s.writeStart.put () }
  | .close => { s with phase := .hanging }
  | .hangUp => { s with phase := .joining }
  | .join =>
      { s with
        phase := .returned
        reason := if s.requested then discRequested else s.reason }

def newRun : State setup where
  phase := .selecting
  reason := discRequested
  requested := false
  writeStart := Buffer.empty.put ()
  writeErr := .empty
  readErr := .empty
  protoErr := .empty
  reader := .reading
  pinger := .idle
  working := setup.running
  receiving := []
  returning := []
  waiting := []
  writing := []
  reporting := []
  read := []
  received := []
  results := []

/-- The events that have happened, in any order the channels allow. -/
abbrev History (allowed : State setup → Event Name Payload → Prop) :=
  Run (guarded (enabled setup) (next setup)) allowed (newRun setup)

end Transcription

variable {setup : Setup Name Payload} {s : State setup} {event : Event Name Payload}
  {events : List (Event Name Payload)} {allowed : State setup → Event Name Payload → Prop}

/-! ## Writing -/

section Writing

def Phase.handing : Phase → ℕ
  | .granting => 1
  | _ => 0

theorem handing_of_ne {phase : Phase} (other : phase ≠ .granting) : phase.handing = 0 := by
  cases phase with
  | granting => exact absurd rfl other
  | _ => rfl

/-- The token is in the channel, with a call, on its way back, or about to be handed out
again. -/
def tokens (s : State setup) : ℕ :=
  s.writeStart.items.length + s.writing.length + s.reporting.length + s.writeErr.items.length +
    s.phase.handing

def Event.movesToken : Event Name Payload → Bool
  | .startWrite _ => true
  | .endWrite _ _ => true
  | .reportWrite _ => true
  | .takeWrite => true
  | .grant => true
  | _ => false

/-- All other events leave the writes alone. At most they end the loop. -/
theorem other_event (other : event.movesToken = false) :
    (next setup s event).writeStart = s.writeStart ∧ (next setup s event).writing = s.writing ∧
      (next setup s event).reporting = s.reporting ∧ (next setup s event).writeErr = s.writeErr ∧
      (next setup s event).results = s.results ∧
      ((next setup s event).phase = s.phase ∨ (next setup s event).phase.looping = false) := by
  cases event with
  | write rw msg =>
      dsimp only [next]
      split <;> exact ⟨rfl, rfl, rfl, rfl, rfl, .inl rfl⟩
  | deliver =>
      dsimp only [next]
      split <;> exact ⟨rfl, rfl, rfl, rfl, rfl, .inl rfl⟩
  | reportRead =>
      dsimp only [next]
      split <;> exact ⟨rfl, rfl, rfl, rfl, rfl, .inl rfl⟩
  | takeRead =>
      dsimp only [next]
      split <;> exact ⟨rfl, rfl, rfl, rfl, rfl, .inr rfl⟩
  | takeProto =>
      dsimp only [next]
      split
      · split_ifs
        · exact ⟨rfl, rfl, rfl, rfl, rfl, .inl rfl⟩
        · exact ⟨rfl, rfl, rfl, rfl, rfl, .inr rfl⟩
      · exact ⟨rfl, rfl, rfl, rfl, rfl, .inl rfl⟩
  | startWrite call => cases other
  | endWrite call err => cases other
  | reportWrite err => cases other
  | takeWrite => cases other
  | grant => cases other
  | takeDisc reason => exact ⟨rfl, rfl, rfl, rfl, rfl, .inr rfl⟩
  | close => exact ⟨rfl, rfl, rfl, rfl, rfl, .inr rfl⟩
  | hangUp => exact ⟨rfl, rfl, rfl, rfl, rfl, .inr rfl⟩
  | join => exact ⟨rfl, rfl, rfl, rfl, rfl, .inr rfl⟩
  | _ => exact ⟨rfl, rfl, rfl, rfl, rfl, .inl rfl⟩

theorem take_write_cases (can : enabled setup s .takeWrite) :
    (∃ err rest, s.writeErr.items = some err :: rest ∧ next setup s .takeWrite =
      { s with phase := .closing, reason := discNetworkError, writeErr := s.writeErr.rest }) ∨
    (∃ rest, s.writeErr.items = none :: rest ∧
      next setup s .takeWrite = { s with phase := .granting, writeErr := s.writeErr.rest }) := by
  obtain ⟨_, some⟩ := can
  dsimp only [next]
  split
  · rename_i err rest items
    exact .inl ⟨err, rest, items, rfl⟩
  · rename_i rest items
    exact .inr ⟨rest, items, rfl⟩
  · rename_i items
    exact absurd items some

/-- There is never a second token, and the only one is not lost while the loop runs. -/
structure Guarded (s : State setup) : Prop where
  few : tokens s ≤ 1
  kept : s.phase.looping = true → tokens s = 1

omit [LinearOrder Name] [DecidableEq Payload] in
theorem guarded_same {later : State setup} (guarded : Guarded s) (same : tokens later = tokens s)
    (looping : later.phase.looping = true → s.phase.looping = true) : Guarded later :=
  ⟨same ▸ guarded.few, fun now => same ▸ guarded.kept (looping now)⟩

theorem guarded_step (can : enabled setup s event) (guarded : Guarded s) :
    Guarded (next setup s event) := by
  cases other : event.movesToken with
  | false =>
      obtain ⟨start, writing, reporting, err, _, phase⟩ := other_event (s := s) other
      rcases phase with same | left
      · have all : tokens (next setup s event) = tokens s := by
          rw [tokens, tokens, start, writing, reporting, err, same]
        exact guarded_same guarded all fun looping => same ▸ looping
      · refine ⟨Nat.le_trans ?_ guarded.few, fun looping => absurd looping (by rw [left]; decide)⟩
        have now : (next setup s event).phase ≠ .granting := fun granting => by
          rw [granting] at left
          cases left
        rw [tokens, tokens, start, writing, reporting, err, handing_of_ne now]
        omega
  | true =>
      cases event with
      | startWrite call =>
          have one := List.length_pos_of_ne_nil can.2
          have same : tokens (next setup s (.startWrite call)) = tokens s := by
            simp only [tokens, next, rest_items, List.length_tail, List.length_cons]
            omega
          exact guarded_same guarded same fun looping => looping
      | endWrite call err =>
          have one := List.length_pos_of_mem can.1
          have same : tokens (next setup s (.endWrite call err)) = tokens s := by
            simp only [tokens, next, List.length_erase_of_mem can.1, List.length_cons]
            omega
          exact guarded_same guarded same fun looping => looping
      | reportWrite err =>
          have one := List.length_pos_of_mem can.1
          have same : tokens (next setup s (.reportWrite err)) = tokens s := by
            simp only [tokens, next, List.length_erase_of_mem can.1, put_items can.2,
              List.length_append, List.length_singleton]
            omega
          exact guarded_same guarded same fun looping => looping
      | takeWrite =>
          rcases take_write_cases can with ⟨err, rest, items, after⟩ | ⟨rest, items, after⟩
          · rw [after]
            refine ⟨Nat.le_trans ?_ guarded.few, fun looping => by cases looping⟩
            simp only [tokens, rest_items, List.length_tail, Phase.handing]
            omega
          · have same : tokens (next setup s .takeWrite) = tokens s := by
              rw [after]
              simp only [tokens, rest_items, List.length_tail, can.1, items, List.length_cons,
                Phase.handing]
              omega
            exact guarded_same guarded same fun _ => by rw [can.1]; rfl
      | grant =>
          have same : tokens (next setup s .grant) = tokens s := by
            simp only [tokens, next, put_items can.2, List.length_append, List.length_singleton,
              can.1, Phase.handing]
            omega
          exact guarded_same guarded same fun _ => by rw [can.1]; rfl
      | _ => cases other

omit [LinearOrder Name] [DecidableEq Payload] in
theorem guarded_new : Guarded (newRun setup) := ⟨Nat.le_refl 1, fun _ => rfl⟩

theorem guarded_run (run : History setup allowed events s) : Guarded s :=
  guarded_invariant Guarded (fun _ _ _ can guarded => guarded_step can guarded) run guarded_new

/-- A write has failed: no other can start. -/
structure Halted (s : State setup) : Prop where
  writing : s.writing = []
  start : s.writeStart.items = []
  phase : s.phase ≠ .granting
  reporting : ∀ err ∈ s.reporting, err ≠ none
  taken : ∀ err ∈ s.writeErr.items, err ≠ none

theorem halted_step (can : enabled setup s event) (halted : Halted s) :
    Halted (next setup s event) ∧ (next setup s event).results = s.results := by
  cases other : event.movesToken with
  | false =>
      obtain ⟨start, writing, reporting, err, results, phase⟩ := other_event (s := s) other
      refine ⟨⟨writing ▸ halted.writing, start ▸ halted.start, ?_, reporting ▸ halted.reporting,
        err ▸ halted.taken⟩, results⟩
      rcases phase with same | left
      · exact same ▸ halted.phase
      · intro granting
        rw [granting] at left
        cases left
  | true =>
      cases event with
      | startWrite call => exact absurd halted.start can.2
      | endWrite call err =>
          have wrong := can.1
          rw [halted.writing] at wrong
          cases wrong
      | reportWrite err =>
          refine ⟨⟨halted.writing, halted.start, halted.phase, fun one member =>
            halted.reporting one (List.mem_of_mem_erase member), fun one member => ?_⟩, rfl⟩
          dsimp only [next] at member
          rw [put_items can.2, List.mem_append, List.mem_singleton] at member
          rcases member with old | rfl
          · exact halted.taken one old
          · exact halted.reporting one can.1
      | takeWrite =>
          rcases take_write_cases can with ⟨err, rest, items, after⟩ | ⟨rest, items, after⟩
          · rw [after]
            exact ⟨⟨halted.writing, halted.start, Phase.noConfusion, halted.reporting,
              fun one member => halted.taken one (List.mem_of_mem_tail member)⟩, rfl⟩
          · exact absurd rfl (halted.taken none (by rw [items]; exact .head _))
      | grant => exact absurd can.1 halted.phase
      | _ => cases other

/-- All writes that have ended succeeded, or the last one failed and no other will start. -/
structure Sequential (s : State setup) : Prop where
  pairs : s.results.Pairwise fun result _ => result.2 = none
  ended : (∀ result ∈ s.results, result.2 = none) ∨ Halted s

theorem results_grow (can : enabled setup s event) :
    (next setup s event).results = s.results ∨
      ∃ call err, event = .endWrite call err ∧ call ∈ s.writing ∧
        (next setup s event).results = s.results ++ [(call, err)] := by
  cases other : event.movesToken with
  | false => exact .inl (other_event other).2.2.2.2.1
  | true =>
      cases event with
      | endWrite call err => exact .inr ⟨call, err, rfl, can.1, rfl⟩
      | takeWrite =>
          rcases take_write_cases can with ⟨err, rest, items, after⟩ | ⟨rest, items, after⟩ <;>
            exact .inl (by rw [after])
      | startWrite call => exact .inl rfl
      | reportWrite err => exact .inl rfl
      | grant => exact .inl rfl
      | _ => cases other

theorem sequential_step (can : enabled setup s event) (guarded : Guarded s)
    (sequential : Sequential s) : Sequential (next setup s event) := by
  rcases sequential.ended with fine | halted
  · rcases results_grow can with same | ⟨call, err, rfl, writing, grown⟩
    · exact ⟨same ▸ sequential.pairs, .inl (same ▸ fine)⟩
    · refine ⟨?_, ?_⟩
      · rw [grown, List.pairwise_append]
        exact ⟨sequential.pairs, List.pairwise_singleton _ _, fun result member _ _ => fine result member⟩
      cases err with
      | none =>
          refine .inl fun result member => ?_
          rw [grown, List.mem_append, List.mem_singleton] at member
          rcases member with old | rfl
          · exact fine result old
          · rfl
      | some err =>
          -- The call holds the only token, so there is none anywhere else.
          have few := guarded.few
          have one := List.length_pos_of_mem writing
          rw [tokens] at few
          refine .inr ⟨?_, ?_, ?_, ?_, ?_⟩
          · change s.writing.erase call = []
            have less := List.length_erase_of_mem writing
            exact List.length_eq_zero_iff.mp (by omega)
          · change s.writeStart.items = []
            exact List.length_eq_zero_iff.mp (by omega)
          · intro granting
            change s.phase = .granting at granting
            rw [granting, Phase.handing] at few
            omega
          · have none : s.reporting = [] := List.length_eq_zero_iff.mp (by omega)
            intro other member
            dsimp only [next] at member
            rw [none, List.mem_singleton] at member
            rw [member]
            exact Option.some_ne_none err
          · have none : s.writeErr.items = [] := List.length_eq_zero_iff.mp (by omega)
            intro other member
            dsimp only [next] at member
            rw [none] at member
            cases member
  · obtain ⟨halted, same⟩ := halted_step can halted
    exact ⟨same ▸ sequential.pairs, .inr halted⟩

theorem sequential_run (run : History setup allowed events s) : Guarded s ∧ Sequential s :=
  guarded_invariant (fun s => Guarded s ∧ Sequential s)
    (fun _ _ _ can both => ⟨guarded_step can both.1, sequential_step can both.1 both.2⟩) run
    ⟨guarded_new, .nil, .inl (List.forall_mem_nil _)⟩

/-- At most one call of a protocol's `WriteMsg` writes at a time, and none after a write has failed, which
ends the loop. While the loop runs, a call that waits can go on, or waits for a write whose end
the loop will hear of. -/
theorem writes_one_at_a_time (run : History setup allowed events s) :
    s.writing.length + s.reporting.length ≤ 1 ∧
      (s.results.Pairwise fun result _ => result.2 = none) ∧
      ((∃ result ∈ s.results, result.2 ≠ none) → s.writing = [] ∧ s.writeStart.items = [] ∧
        (s.phase = .selecting → ∃ err, some err ∈ s.reporting ++ s.writeErr.items)) ∧
      (s.phase = .selecting → s.writeStart.items ≠ [] ∨ s.writing ≠ [] ∨ s.reporting ≠ [] ∨
        s.writeErr.items ≠ []) := by
  obtain ⟨⟨few, kept⟩, sequential⟩ := sequential_run run
  have somewhere (selecting : s.phase = .selecting) : s.writeStart.items ≠ [] ∨ s.writing ≠ [] ∨
      s.reporting ≠ [] ∨ s.writeErr.items ≠ [] := by
    have one := kept (by rw [selecting]; rfl)
    rw [tokens, selecting] at one
    change _ + 0 = 1 at one
    simp only [← List.length_pos_iff]
    omega
  refine ⟨?_, sequential.pairs, fun failed => ?_, somewhere⟩
  · rw [tokens] at few
    omega
  obtain ⟨result, member, bad⟩ := failed
  have halted := sequential.ended.resolve_left fun fine => bad (fine result member)
  refine ⟨halted.writing, halted.start, fun selecting => ?_⟩
  have held : s.reporting ++ s.writeErr.items ≠ [] := by
    rcases somewhere selecting with start | writing | reporting | taken
    · exact absurd halted.start start
    · exact absurd halted.writing writing
    · exact List.append_ne_nil_of_left_ne_nil reporting _
    · exact List.append_ne_nil_of_right_ne_nil _ taken
  obtain ⟨err, there⟩ := List.exists_mem_of_ne_nil _ held
  have bad : err ≠ none := (List.mem_append.mp there).elim (halted.reporting err) (halted.taken err)
  obtain ⟨err, rfl⟩ := Option.ne_none_iff_exists'.mp bad
  exact ⟨err, there⟩

def sampleRW : ProtoRW ℕ := ⟨⟨0, 63, 10⟩, 17⟩

def sampleSetup (nodeType : UInt64) : Setup ℕ Unit := ⟨nodeType, [sampleRW], fun _ => 0⟩

def sampleCall (code : UInt64) : Call ℕ Unit := ⟨sampleRW, ⟨code, ()⟩⟩

/-- Two calls of `WriteMsg`, of which the second fails, and a message in between. -/
def sampleEvents : List (Event ℕ Unit) :=
  [.write sampleRW ⟨3, ()⟩, .write sampleRW ⟨4, ()⟩, .startWrite (sampleCall 20),
    .readMsg ⟨18, ()⟩, .endWrite (sampleCall 20) none, .receive sampleRW, .deliver,
    .reportWrite none, .takeWrite, .grant, .startWrite (sampleCall 21),
    .endWrite (sampleCall 21) (some .other), .reportWrite (some .other), .takeWrite]

theorem sample_history :
    ∃ s, History (sampleSetup 1) (fun _ _ => True) sampleEvents s ∧ s.phase = .closing ∧
      s.results = [(sampleCall 20, none), (sampleCall 21, some .other)] ∧
      s.received = [(sampleRW, ⟨1, ()⟩)] := by
  have passed : (replay (guarded (enabled (sampleSetup 1)) (next (sampleSetup 1)))
      (fun _ _ => true) (newRun (sampleSetup 1)) sampleEvents).any (fun s => decide
        (s.phase = .closing ∧ s.results = [(sampleCall 20, none), (sampleCall 21, some .other)] ∧
          s.received = [(sampleRW, ⟨1, ()⟩)])) = true := by
    decide +kernel
  obtain ⟨s, run, facts⟩ := run_reaching _ _ (fun _ _ _ => trivial) passed
  exact ⟨s, run, of_decide_eq_true facts⟩

theorem sampled_writes_in_turn :
    ∃ s, History (sampleSetup 1) (fun _ _ => True) sampleEvents s ∧ s.results.length = 2 ∧
      s.writing = [] := by
  obtain ⟨s, run, _, results, _⟩ := sample_history
  refine ⟨s, run, by rw [results]; rfl, ((writes_one_at_a_time run).2.2.1 ?_).1⟩
  exact ⟨(sampleCall 21, some .other), by rw [results]; simp, by simp⟩

end Writing

/-! ## Reading -/

section Reading

def Reader.inFlight : Reader Name Payload → Option (ProtoRW Name × Msg Payload)
  | .delivering rw msg => some (rw, msg)
  | _ => none

def addressed (setup : Setup Name Payload) (msgs : List (Msg Payload)) :
    List (ProtoRW Name × Msg Payload) :=
  msgs.filterMap fun msg => (handleMsg setup msg).inFlight

def Reader.stopped : Reader Name Payload → Bool
  | .failing _ => true
  | .done => true
  | _ => false

/-- The handlers have got the messages that were read, but for the one that waits to be handed
over, or for the last one when the peer was closed meanwhile. -/
def InOrder (s : State setup) : Prop :=
  s.received ++ s.reader.inFlight.toList = addressed setup s.read ∨
    (s.phase.closed = true ∧ s.reader.stopped = true ∧
      ∃ lost, s.received ++ [lost] = addressed setup s.read)

def Event.movesMsg : Event Name Payload → Bool
  | .readMsg _ => true
  | .failRead => true
  | .deliver => true
  | .abandonDelivery => true
  | .reportRead => true
  | _ => false

theorem closed_stays (can : enabled setup s event) (closed : s.phase.closed = true) :
    (next setup s event).phase.closed = true := by
  have apart {phase : Phase} (there : s.phase = phase) (opened : phase.closed = false) : False := by
    rw [there, opened] at closed
    cases closed
  cases event with
  | takeWrite => exact (apart can.1 rfl).elim
  | takeRead => exact (apart can.1 rfl).elim
  | takeProto => exact (apart can.1 rfl).elim
  | takeDisc reason => exact (apart can rfl).elim
  | grant => exact (apart can.1 rfl).elim
  | close => rfl
  | hangUp => rfl
  | join => rfl
  | write rw msg =>
      dsimp only [next]
      split <;> exact closed
  | deliver =>
      dsimp only [next]
      split <;> exact closed
  | reportRead =>
      dsimp only [next]
      split <;> exact closed
  | _ => exact closed

theorem other_than_reading (other : event.movesMsg = false) :
    (next setup s event).reader = s.reader ∧ (next setup s event).read = s.read ∧
      (next setup s event).received = s.received := by
  cases event with
  | readMsg msg => cases other
  | failRead => cases other
  | deliver => cases other
  | abandonDelivery => cases other
  | reportRead => cases other
  | write rw msg =>
      dsimp only [next]
      split <;> exact ⟨rfl, rfl, rfl⟩
  | takeWrite =>
      dsimp only [next]
      split <;> exact ⟨rfl, rfl, rfl⟩
  | takeRead =>
      dsimp only [next]
      split <;> exact ⟨rfl, rfl, rfl⟩
  | takeProto =>
      dsimp only [next]
      split
      · split_ifs <;> exact ⟨rfl, rfl, rfl⟩
      · exact ⟨rfl, rfl, rfl⟩
  | _ => exact ⟨rfl, rfl, rfl⟩

omit [LinearOrder Name] [DecidableEq Payload] in
theorem addressed_append (msgs : List (Msg Payload)) (msg : Msg Payload) :
    addressed setup (msgs ++ [msg]) =
      addressed setup msgs ++ (handleMsg setup msg).inFlight.toList := by
  rw [addressed, List.filterMap_append, addressed]
  rfl

omit [LinearOrder Name] [DecidableEq Payload] in
theorem addressed_code {msgs : List (Msg Payload)} {sent : ProtoRW Name × Msg Payload}
    (member : sent ∈ addressed setup msgs) :
    sent.1 ∈ setup.running ∧
      ∃ msg ∈ msgs, msg.payload = sent.2.payload ∧ msg.code = sent.2.code + sent.1.offset := by
  obtain ⟨msg, read, flight⟩ := List.mem_filterMap.mp member
  unfold handleMsg at flight
  split at flight
  case h_5 rw code handled =>
    obtain rfl := Option.some.inj flight
    unfold handle at handled
    split_ifs at handled
    split at handled
    · cases handled
    · rename_i found
      obtain ⟨rfl, rfl⟩ := Handled.delivered.inj handled
      refine ⟨List.mem_of_find?_eq_some found, msg, read, rfl, ?_⟩
      exact (UInt64.sub_add_cancel _ _).symm
  all_goals cases flight

theorem in_order_step (can : enabled setup s event) (order : InOrder s) :
    InOrder (next setup s event) := by
  cases other : event.movesMsg with
  | false =>
      obtain ⟨reader, read, received⟩ := other_than_reading (s := s) other
      rw [InOrder, reader, read, received]
      exact order.imp_right fun late => ⟨closed_stays can late.1, late.2⟩
  | true =>
      have going (reading : s.reader.stopped = false) :
          s.received ++ s.reader.inFlight.toList = addressed setup s.read :=
        order.resolve_right fun late => by
          rw [reading] at late
          cases late.2.1
      cases event with
      | readMsg msg =>
          have same := going (by rw [can.1]; rfl)
          rw [can.1] at same
          change _ ++ [] = _ at same
          rw [List.append_nil] at same
          left
          change s.received ++ (handleMsg setup msg).inFlight.toList =
            addressed setup (s.read ++ [msg])
          rw [addressed_append, same]
      | failRead =>
          have same := going (by rw [can]; rfl)
          rw [can] at same
          exact .inl same
      | deliver =>
          dsimp only [enabled] at can
          dsimp only [next]
          split
          · rename_i rw msg reader
            have same := going (by rw [reader]; rfl)
            rw [reader] at same
            left
            change (s.received ++ [(rw, msg)]) ++ [] = _
            rw [List.append_nil]
            exact same
          · exact order
      | abandonDelivery =>
          obtain ⟨delivering, closed⟩ := can
          cases reader : s.reader with
          | delivering rw msg =>
              have same := going (by rw [reader]; rfl)
              rw [reader] at same
              exact .inr ⟨closed, rfl, (rw, msg), same⟩
          | _ =>
              rw [reader] at delivering
              cases delivering
      | reportRead =>
          dsimp only [next]
          split
          · rename_i err reader
            rw [InOrder, reader] at order
            exact order.imp_right fun late => ⟨late.1, rfl, late.2.2⟩
          · exact order
      | _ => cases other

/-- The handlers get the messages of the connection in the order in which they were read, each
at most once and with its own code. None is left out before the peer is closed, and then at most
the last one. -/
theorem messages_in_order (run : History setup allowed events s) :
    (s.received ++ s.reader.inFlight.toList = addressed setup s.read ∨
      (s.phase.closed = true ∧ s.reader.stopped = true ∧
        ∃ lost, s.received ++ [lost] = addressed setup s.read)) ∧
      ∀ sent ∈ s.received, sent.1 ∈ setup.running ∧
        ∃ msg ∈ s.read, msg.payload = sent.2.payload ∧ msg.code = sent.2.code + sent.1.offset := by
  have order := guarded_invariant InOrder (fun _ _ _ can order => in_order_step can order) run
    (.inl rfl)
  refine ⟨order, fun sent member => addressed_code ?_⟩
  rcases order with same | ⟨_, _, lost, same⟩
  · rw [← same]
    exact List.mem_append_left _ member
  · rw [← same]
    exact List.mem_append_left _ member

theorem sampled_messages_in_order :
    ∃ s, History (sampleSetup 1) (fun _ _ => True) sampleEvents s ∧ s.received.length = 1 ∧
      ∀ sent ∈ s.received, sent.1 ∈ (sampleSetup 1).running := by
  obtain ⟨s, run, _, _, received⟩ := sample_history
  exact ⟨s, run, by rw [received]; rfl, fun sent member => ((messages_in_order run).2 sent member).1⟩

end Reading

/-! ## The end of a peer -/

section Ending

def Pinger.left : Pinger → ℕ
  | .done => 0
  | _ => 1

def handlers (s : State setup) : ℕ := s.working.length + s.receiving.length + s.returning.length

/-- The errors in the channel and the goroutines that may still send one. -/
def reports (s : State setup) : ℕ := s.protoErr.items.length + handlers s + s.pinger.left

theorem open_of_looping {phase : Phase} (looping : phase.looping = true) :
    phase.closed = false := by
  cases phase with
  | selecting => rfl
  | granting => rfl
  | _ => cases looping

theorem looping_before (can : enabled setup s event)
    (now : (next setup s event).phase.looping = true) : s.phase.looping = true := by
  cases other : event.movesToken with
  | false =>
      rcases (other_event (s := s) other).2.2.2.2.2 with same | left
      · exact same ▸ now
      · rw [left] at now
        cases now
  | true =>
      cases event with
      | takeWrite => rw [can.1]; rfl
      | grant => rw [can.1]; rfl
      | startWrite call => exact now
      | endWrite call err => exact now
      | reportWrite err => exact now
      | _ => cases other

/-- Each goroutine reports at most one error. Peers of other types than 4 leave the loop when
they hear of the first. -/
structure Counted (s : State setup) : Prop where
  few : handlers s ≤ setup.running.length
  room : reports s ≤ setup.running.length + 1
  noticed : setup.nodeType ≠ 4 → s.phase.looping = true → reports s = setup.running.length + 1
  read : s.readErr.items = [] ∨ s.reader = .done

omit [LinearOrder Name] [DecidableEq Payload] in
/-- An event that takes no error and ends no handler. -/
theorem counted_same (counted : Counted s) {after : State setup}
    (same : handlers after = handlers s)
    (errors : after.protoErr.items.length + after.pinger.left =
      s.protoErr.items.length + s.pinger.left)
    (looping : after.phase.looping = true → s.phase.looping = true)
    (read : after.readErr.items = [] ∨ after.reader = .done) : Counted after := by
  have all : reports after = reports s := by
    rw [reports, reports, same]
    omega
  exact ⟨same ▸ counted.few, all ▸ counted.room,
    fun other now => all ▸ counted.noticed other (looping now), read⟩

omit [LinearOrder Name] [DecidableEq Payload] in
/-- An event after which fewer errors can come, for a peer that does not expect them. -/
theorem counted_fewer (counted : Counted s) {after : State setup}
    (same : handlers after = handlers s)
    (errors : after.protoErr.items.length + after.pinger.left ≤
      s.protoErr.items.length + s.pinger.left)
    (left : setup.nodeType = 4 ∨ after.phase.looping = false)
    (read : after.readErr.items = [] ∨ after.reader = .done) : Counted after := by
  refine ⟨same ▸ counted.few, Nat.le_trans ?_ counted.room, fun other now => ?_, read⟩
  · rw [reports, reports, same]
    omega
  · rw [left.resolve_left other] at now
    cases now

theorem counted_step (can : enabled setup s event) (counted : Counted s) :
    Counted (next setup s event) := by
  have looping := looping_before (s := s) can
  have reading (unfinished : s.reader.stopped = false) : s.readErr.items = [] :=
    counted.read.resolve_right fun done => by
      rw [done] at unfinished
      cases unfinished
  cases event with
  | write rw msg =>
      dsimp only [next]
      split
      · exact counted
      · exact counted_same counted rfl rfl id counted.read
  | readMsg msg =>
      exact counted_same counted rfl rfl looping (.inl (reading (by rw [can.1]; rfl)))
  | failRead => exact counted_same counted rfl rfl looping (.inl (reading (by rw [can]; rfl)))
  | deliver =>
      dsimp only [enabled] at can
      cases reader : s.reader with
      | delivering rw msg =>
          rw [reader] at can
          have member : rw ∈ s.receiving := of_decide_eq_true can
          have one := List.length_pos_of_mem member
          have none := reading (by rw [reader]; rfl)
          dsimp only [next]
          rw [reader]
          refine counted_same counted ?_ rfl id (.inl none)
          simp only [handlers, List.length_cons, List.length_erase_of_mem member]
          omega
      | _ =>
          rw [reader] at can
          cases can
  | abandonDelivery =>
      refine counted_same counted rfl rfl looping (.inl (reading ?_))
      have delivering := can.1
      cases reader : s.reader with
      | delivering rw msg => rfl
      | _ =>
          rw [reader] at delivering
          cases delivering
  | reportRead =>
      dsimp only [next]
      split
      · exact counted_same counted rfl rfl id (.inr rfl)
      · exact counted
  | failPing =>
      refine counted_same counted rfl ?_ looping counted.read
      dsimp only [enabled] at can
      simp only [next, can, Pinger.left]
  | reportPing =>
      refine counted_same counted rfl ?_ looping counted.read
      simp only [next, can.1, Pinger.left, put_items can.2, List.length_append,
        List.length_singleton]
  | stopPing =>
      refine counted_fewer counted rfl (Nat.le_add_right _ _) (.inr ?_) counted.read
      by_contra running
      have opened := open_of_looping (looping (Bool.eq_true_of_not_eq_false running))
      rw [can.2] at opened
      cases opened
  | receive rw =>
      have one := List.length_pos_of_mem can
      refine counted_same counted ?_ rfl looping counted.read
      simp only [handlers, next, List.length_erase_of_mem can, List.length_cons]
      omega
  | endReceive rw =>
      have one := List.length_pos_of_mem can.1
      refine counted_same counted ?_ rfl looping counted.read
      simp only [handlers, next, List.length_erase_of_mem can.1, List.length_cons]
      omega
  | handlerReturns rw err =>
      have one := List.length_pos_of_mem can
      refine counted_same counted ?_ rfl looping counted.read
      simp only [handlers, next, List.length_erase_of_mem can, List.length_cons]
      omega
  | reportHandler err =>
      have one := List.length_pos_of_mem can.1
      have fewer : handlers (next setup s (.reportHandler err)) + 1 = handlers s := by
        simp only [handlers, next, List.length_erase_of_mem can.1]
        omega
      have same : reports (next setup s (.reportHandler err)) = reports s := by
        rw [reports, reports, ← fewer]
        simp only [next, put_items can.2, List.length_append, List.length_singleton]
        omega
      have few := counted.few
      exact ⟨by omega, same ▸ counted.room, fun other now => same ▸ counted.noticed other now,
        counted.read⟩
  | takeWrite =>
      rcases take_write_cases can with ⟨err, rest, items, after⟩ | ⟨rest, items, after⟩ <;>
        rw [after] at looping ⊢ <;> exact counted_same counted rfl rfl looping counted.read
  | takeRead =>
      have done := counted.read.resolve_left can.2
      dsimp only [next]
      split <;> exact counted_same counted rfl rfl (fun now => by cases now) (.inr done)
  | takeProto =>
      have fewer : s.protoErr.rest.items.length + s.pinger.left ≤
          s.protoErr.items.length + s.pinger.left := by
        rw [rest_items, List.length_tail]
        omega
      dsimp only [next]
      split
      · split_ifs with four
        · exact counted_fewer counted rfl fewer (.inl four) counted.read
        · exact counted_fewer counted rfl fewer (.inr rfl) counted.read
      · exact counted
  | _ => exact counted_same counted rfl rfl looping counted.read

omit [LinearOrder Name] [DecidableEq Payload] in
theorem counted_new : Counted (newRun setup) := by
  refine ⟨Nat.le_refl _, ?_, fun _ _ => ?_, .inl rfl⟩ <;>
    simp [reports, handlers, newRun, Pinger.left]

theorem counted_run (run : History setup allowed events s) : Counted s :=
  guarded_invariant Counted (fun _ _ _ can counted => counted_step can counted) run counted_new

/-- A peer of another type than 4 hears of the first handler or ping that ends. -/
theorem end_of_handler_noticed (run : History setup allowed events s) (type : setup.nodeType ≠ 4)
    (looping : s.phase.looping = true)
    (ended : handlers s < setup.running.length ∨ s.pinger = .done) : s.protoErr.items ≠ [] := by
  obtain ⟨few, _, noticed, _⟩ := counted_run run
  have all := noticed type looping
  rw [← List.length_pos_iff]
  rw [reports] at all
  rcases ended with fewer | done
  · have ping : s.pinger.left ≤ 1 := by cases s.pinger <;> decide
    omega
  · have ping : s.pinger.left = 0 := by rw [done]; rfl
    omega

/-! Sends never wait. -/

omit [LinearOrder Name] [DecidableEq Payload] in
theorem write_room (guarded : Guarded s) :
    (s.reporting ≠ [] → s.writeErr.Room) ∧ (s.phase = .granting → s.writeStart.Room) := by
  have few := guarded.few
  rw [tokens] at few
  refine ⟨fun some => ?_, fun granting => ?_⟩
  · have one := List.length_pos_of_ne_nil some
    change s.writeErr.items.length < 1
    omega
  · rw [granting, Phase.handing] at few
    change s.writeStart.items.length < 1
    omega

omit [LinearOrder Name] [DecidableEq Payload] in
theorem error_room (counted : Counted s) :
    (s.reader.isFailing = true → s.readErr.Room) ∧ (s.pinger = .failing → s.protoErr.Room) ∧
      (s.returning ≠ [] → s.protoErr.Room) := by
  have room := counted.room
  rw [reports, handlers] at room
  refine ⟨fun failing => ?_, fun failing => ?_, fun some => ?_⟩
  · have none := counted.read.resolve_right fun done => by
      rw [done] at failing
      cases failing
    change s.readErr.items.length < 1
    rw [none]
    exact Nat.zero_lt_one
  · rw [failing, Pinger.left] at room
    · change s.protoErr.items.length < setup.running.length + 1
      omega
    · decide
  · have one := List.length_pos_of_ne_nil some
    change s.protoErr.items.length < setup.running.length + 1
    omega

/-- The events that end what goes on, with no help from the other side or from a protocol
except that handlers return. -/
def Event.winding : Event Name Payload → Bool
  | .endWrite _ err => err.isSome
  | .reportWrite _ => true
  | .abandonWrite _ => true
  | .failRead => true
  | .abandonDelivery => true
  | .reportRead => true
  | .reportPing => true
  | .stopPing => true
  | .endReceive _ => true
  | .handlerReturns _ _ => true
  | .reportHandler _ => true
  | .close => true
  | .hangUp => true
  | .join => true
  | _ => false

def Phase.left : Phase → ℕ
  | .closing => 3
  | .hanging => 2
  | .joining => 1
  | _ => 0

def Reader.left : Reader Name Payload → ℕ
  | .reading => 2
  | .delivering _ _ => 2
  | .failing _ => 1
  | .done => 0

/-- How many events it takes at most until nothing is left. -/
def remaining (s : State setup) : ℕ :=
  s.phase.left + s.reader.left + s.pinger.left + 3 * s.receiving.length + 2 * s.working.length +
    s.returning.length + s.waiting.length + 2 * s.writing.length + s.reporting.length

structure Gone (s : State setup) : Prop where
  phase : s.phase = .returned
  waiting : s.waiting = []
  writing : s.writing = []
  reporting : s.reporting = []

def Winds (s : State setup) : Prop :=
  ∃ event : Event Name Payload, event.winding = true ∧ enabled setup s event ∧
    remaining (next setup s event) < remaining s

theorem calls_wind (guarded : Guarded s) (closed : s.phase.closed = true)
    (some : s.waiting ≠ [] ∨ s.writing ≠ [] ∨ s.reporting ≠ []) : Winds s := by
  rcases some with some | some | some
  · obtain ⟨call, member⟩ := List.exists_mem_of_ne_nil _ some
    have one := List.length_pos_of_mem member
    refine ⟨.abandonWrite call, rfl, ⟨member, closed⟩, ?_⟩
    simp only [remaining, next, List.length_erase_of_mem member]
    omega
  · obtain ⟨call, member⟩ := List.exists_mem_of_ne_nil _ some
    have one := List.length_pos_of_mem member
    refine ⟨.endWrite call (Option.some .other), rfl, ⟨member, fun wrong => by cases wrong⟩, ?_⟩
    simp only [remaining, next, List.length_erase_of_mem member, List.length_cons]
    omega
  · obtain ⟨err, member⟩ := List.exists_mem_of_ne_nil _ some
    have one := List.length_pos_of_mem member
    refine ⟨.reportWrite err, rfl, ⟨member, (write_room guarded).1 some⟩, ?_⟩
    simp only [remaining, next, List.length_erase_of_mem member]
    omega

theorem reader_winds (counted : Counted s) (closed : s.phase.closed = true)
    (unfinished : s.reader ≠ .done) : Winds s := by
  cases reader : s.reader with
  | reading =>
      refine ⟨.failRead, rfl, reader, ?_⟩
      simp only [remaining, next, reader, Reader.left]
      omega
  | delivering rw msg =>
      refine ⟨.abandonDelivery, rfl, ⟨by rw [reader]; rfl, closed⟩, ?_⟩
      simp only [remaining, next, reader, Reader.left]
      omega
  | failing err =>
      have failing : s.reader.isFailing = true := by rw [reader]; rfl
      refine ⟨.reportRead, rfl, ⟨failing, (error_room counted).1 failing⟩, ?_⟩
      simp only [remaining, next, reader, Reader.left]
      omega
  | done => exact absurd reader unfinished

theorem pinger_winds (counted : Counted s) (closed : s.phase.closed = true)
    (unfinished : s.pinger ≠ .done) : Winds s := by
  cases pinger : s.pinger with
  | idle =>
      refine ⟨.stopPing, rfl, ⟨pinger, closed⟩, ?_⟩
      simp only [remaining, next, pinger, Pinger.left]
      omega
  | failing =>
      refine ⟨.reportPing, rfl, ⟨pinger, (error_room counted).2.1 pinger⟩, ?_⟩
      simp only [remaining, next, pinger, Pinger.left]
      omega
  | done => exact absurd pinger unfinished

theorem handlers_wind (counted : Counted s) (closed : s.phase.closed = true)
    (some : s.working ≠ [] ∨ s.receiving ≠ [] ∨ s.returning ≠ []) : Winds s := by
  rcases some with some | some | some
  · obtain ⟨rw, member⟩ := List.exists_mem_of_ne_nil _ some
    have one := List.length_pos_of_mem member
    refine ⟨.handlerReturns rw none, rfl, member, ?_⟩
    simp only [remaining, next, List.length_erase_of_mem member, List.length_cons]
    omega
  · obtain ⟨rw, member⟩ := List.exists_mem_of_ne_nil _ some
    have one := List.length_pos_of_mem member
    refine ⟨.endReceive rw, rfl, ⟨member, closed⟩, ?_⟩
    simp only [remaining, next, List.length_erase_of_mem member, List.length_cons]
    omega
  · obtain ⟨err, member⟩ := List.exists_mem_of_ne_nil _ some
    have one := List.length_pos_of_mem member
    refine ⟨.reportHandler err, rfl, ⟨member, (error_room counted).2.2 some⟩, ?_⟩
    simp only [remaining, next, List.length_erase_of_mem member]
    omega

theorem peer_winds (guarded : Guarded s) (counted : Counted s) (left : s.phase.looping = false)
    (more : ¬Gone s) : Winds s := by
  have step {later : Phase} (less : later.left < s.phase.left) :
      remaining { s with phase := later } < remaining s := by
    simp only [remaining]
    omega
  cases phase : s.phase with
  | selecting =>
      rw [phase] at left
      cases left
  | granting =>
      rw [phase] at left
      cases left
  | closing => exact ⟨.close, rfl, phase, step (by rw [phase]; decide)⟩
  | hanging => exact ⟨.hangUp, rfl, phase, step (by rw [phase]; decide)⟩
  | returned =>
      have closed : s.phase.closed = true := by rw [phase]; rfl
      refine calls_wind guarded closed ?_
      by_contra none
      rw [not_or, not_or, not_not, not_not, not_not] at none
      exact more ⟨phase, none.1, none.2.1, none.2.2⟩
  | joining =>
      have closed : s.phase.closed = true := by rw [phase]; rfl
      by_cases reader : s.reader = .done
      · by_cases pinger : s.pinger = .done
        · by_cases some : s.working ≠ [] ∨ s.receiving ≠ [] ∨ s.returning ≠ []
          · exact handlers_wind counted closed some
          · rw [not_or, not_or, not_not, not_not, not_not] at some
            refine ⟨.join, rfl, ⟨phase, reader, pinger, some⟩, ?_⟩
            simp only [remaining, next, phase, Phase.left]
            omega
        · exact pinger_winds counted closed pinger
      · exact reader_winds counted closed reader

/-- No goroutine of a peer waits forever. A send always finds room in its channel; and once
`run` has left its loop, it returns and every call of `WriteMsg` ends, by events of the
goroutines alone, if the handlers return when `ReadMsg` and `WriteMsg` fail. -/
theorem shutdown_completes (run : History setup allowed events s) :
    ((s.reporting ≠ [] → s.writeErr.Room) ∧ (s.phase = .granting → s.writeStart.Room) ∧
      (s.reader.isFailing = true → s.readErr.Room) ∧ (s.pinger = .failing → s.protoErr.Room) ∧
      (s.returning ≠ [] → s.protoErr.Room)) ∧
    (s.phase.looping = false → ∃ more last,
      Run (guarded (enabled setup) (next setup)) (fun _ event => event.winding = true) s more last ∧
        Gone last) := by
  have held := guarded_run run
  have counted := counted_run run
  obtain ⟨taken, start⟩ := write_room held
  refine ⟨⟨taken, start, error_room counted⟩, fun left => ?_⟩
  have ends : ∃ more last,
      Run (guarded (enabled setup) (next setup)) (fun _ event => event.winding = true) s more last ∧
        (Guarded last ∧ Counted last ∧ last.phase.looping = false) ∧ Gone last := by
    refine run_to_goal (fun s => Guarded s ∧ Counted s ∧ s.phase.looping = false) Gone remaining
      (fun s kept short => ?_) ⟨held, counted, left⟩
    obtain ⟨held, counted, left⟩ := kept
    obtain ⟨event, wound, can, less⟩ := peer_winds held counted left short
    refine ⟨event, wound, can, ⟨guarded_step can held, counted_step can counted, ?_⟩, less⟩
    rw [Bool.eq_false_iff] at left ⊢
    exact fun now => left (looping_before can now)
  obtain ⟨more, last, rest, _, gone⟩ := ends
  exact ⟨more, last, rest, gone⟩

theorem sampled_shutdown :
    ∃ s more last, History (sampleSetup 1) (fun _ _ => True) sampleEvents s ∧
      Run (guarded (enabled (sampleSetup 1)) (next (sampleSetup 1)))
        (fun _ event => event.winding = true) s more last ∧ last.phase = .returned := by
  obtain ⟨s, run, phase, _⟩ := sample_history
  obtain ⟨more, last, rest, gone⟩ := (shutdown_completes run).2 (by rw [phase]; rfl)
  exact ⟨s, more, last, run, rest, gone.phase⟩

end Ending

end PbftBlock.PeerRun
