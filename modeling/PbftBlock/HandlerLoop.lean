import Mathlib.Data.List.Perm.Basic
import PbftBlock.ConsensusNetwork
import PbftBlock.Library.Channels

/-!
# The loop that handles the messages of a peer

`handle` of `eth/handler.go` reads one message after another and starts a goroutine for each.
Another goroutine waits for the first error that one of these reports. When `handle` returns it
cancels the context, and `closeChan` takes the errors that are still being sent and closes the
channel, which has no buffer. Only the sending of an error is under a `recover`: a panic of
`ValidateSig` or of a handler in a message's goroutine ends the process.
-/

namespace PbftBlock.HandlerLoop

open PbftBlock.ConsensusNetwork PbftBlock.ConsensusWorker PbftBlock.Library.Channels
  PbftBlock.Library.GuardedRuns

set_option autoImplicit false

section Transcription

/-- The errors that end the loop. The goroutine of a message reports the last two; the loop itself
finds the others and `decode`. -/
inductive Failure where
  | read
  | msgTooLarge
  | invalidMsgCode
  | decode
  | illegalSig
deriving DecidableEq

/-- A signed payload: one that a handler is called for, a `TestMsg` or a consensus message of
another type, or bytes that `rlp.DecodeBytes` refuses. -/
inductive Payload where
  | packet (packet : Packet)
  | other
  | garbled
deriving DecidableEq

/-- A `CommunicationInfo` that the loop has decoded. It has no signer if `ValidateSig` panics. -/
structure Incoming where
  signer : Option String
  payload : Payload
deriving DecidableEq

inductive Treatment where
  | panics
  | fails (err : Failure)
  | returns (call : Option Call)
deriving DecidableEq

/-- What the goroutine of a message does, for a peer with this key. -/
def treat (nodePK : String) (cd : Incoming) : Treatment :=
  match cd.signer with
  | none => .panics
  | some signer =>
      if signer ≠ nodePK then .fails .illegalSig
      else
        match cd.payload with
        | .garbled => .fails .decode
        | .other => .returns none
        | .packet packet => .returns (some (packetCall packet))

/-- A handler panics in some states of the node. -/
def Treatment.mayPanic : Treatment → Bool
  | .panics => true
  | .fails _ => false
  | .returns call => call.isSome

def Treatment.call : Treatment → Option Call
  | .returns call => call
  | _ => none

/-- Where `handle` is: before it looks at `Err`, in `handleMsg`, or done. -/
inductive Main where
  | checking
  | reading
  | returned (err : Failure)
deriving DecidableEq

inductive Closer where
  | unborn
  | draining
  | done
deriving DecidableEq

/-- The variables of `handle` and its goroutines. A message is worked on; if that fails its
goroutine is in the `select` of `sendHandleMsgRes` and then sends the error. The last fields are
for reference: the messages read, the handlers called, how many messages were read after `Err`
was set, and whether a panic has ended the process. -/
structure Handling where
  main : Main
  err : Option Failure
  cancelled : Bool
  collecting : Bool
  working : List Incoming
  selecting : List Failure
  sending : List Failure
  closer : Closer
  closed : Bool
  read : List Incoming
  called : List Call
  late : ℕ
  dead : Bool

inductive Event where
  | check
  | readMsg (cd : Incoming)
  | reject (err : Failure)
  | work (cd : Incoming)
  | die (cd : Incoming)
  | dismiss (err : Failure)
  | fire (err : Failure)
  | collect (err : Failure)
  | collectNil
  | endCollecting
  | drain (err : Failure)
  | closeChan
  | recover (err : Failure)
deriving DecidableEq

/-- When an event can happen. The `default` of `closeChan` is taken only if nobody is sending; a
receive from the closed channel gives nil, and a send to it panics. -/
def possible (nodePK : String) (s : Handling) : Event → Prop
  | .check => s.main = .checking
  | .readMsg _ => s.main = .reading
  | .reject err => s.main = .reading ∧ err ≠ .illegalSig
  | .work cd => cd ∈ s.working ∧ treat nodePK cd ≠ .panics
  | .die cd => cd ∈ s.working ∧ (treat nodePK cd).mayPanic = true
  | .dismiss err => err ∈ s.selecting ∧ s.cancelled = true
  | .fire err => err ∈ s.selecting
  | .collect err => err ∈ s.sending ∧ s.collecting = true ∧ s.closed = false
  | .collectNil => s.collecting = true ∧ s.closed = true
  | .endCollecting => s.collecting = true ∧ s.cancelled = true
  | .drain err => err ∈ s.sending ∧ s.closer = .draining ∧ s.closed = false
  | .closeChan => s.closer = .draining ∧ s.sending = []
  | .recover err => err ∈ s.sending ∧ s.closed = true

def enabled (nodePK : String) (s : Handling) (event : Event) : Prop :=
  s.dead = false ∧ possible nodePK s event

instance (nodePK : String) (s : Handling) (event : Event) : Decidable (enabled nodePK s event) := by
  cases event <;> (dsimp only [enabled, possible]; infer_instance)

def Handling.leave (s : Handling) (err : Failure) : Handling :=
  { s with main := .returned err, cancelled := true, closer := .draining }

def next (nodePK : String) (s : Handling) : Event → Handling
  | .check =>
      match s.err with
      | some err => s.leave err
      | none => { s with main := .reading }
  | .readMsg cd =>
      { s with
        main := .checking
        working := cd :: s.working
        read := s.read ++ [cd]
        late := if s.err.isSome then s.late + 1 else s.late }
  | .reject err => s.leave err
  | .work cd =>
      match treat nodePK cd with
      | .panics => s
      | .fails err => { s with working := s.working.erase cd, selecting := err :: s.selecting }
      | .returns call =>
          { s with working := s.working.erase cd, called := s.called ++ call.toList }
  | .die _ => { s with dead := true }
  | .dismiss err => { s with selecting := s.selecting.erase err }
  | .fire err => { s with selecting := s.selecting.erase err, sending := err :: s.sending }
  | .collect err =>
      { s with err := some err, collecting := false, sending := s.sending.erase err }
  | .collectNil => { s with err := none, collecting := false }
  | .endCollecting => { s with collecting := false }
  | .drain err => { s with sending := s.sending.erase err }
  | .closeChan =>
      if s.closed then { s with dead := true }
      else { s with closed := true, closer := .done }
  | .recover err => { s with sending := s.sending.erase err }

end Transcription

variable {nodePK : String} {s : Handling} {event : Event} {events : List Event}

/-! ## Messages and errors -/

section Messages

def callOf (nodePK : String) (cd : Incoming) : Option Call := (treat nodePK cd).call

/-- The messages that were read are those dealt with and those that are being worked on. -/
def Accounted (nodePK : String) (s : Handling) : Prop :=
  (s.called ++ s.working.filterMap (callOf nodePK)).Perm (s.read.filterMap (callOf nodePK))

/-- The loop has left, cancelled the context and started `closeChan`, or none of these. -/
structure Leaving (s : Handling) : Prop where
  cancelled : s.cancelled = true ↔ ∃ err, s.main = .returned err
  started : s.closer = .unborn ↔ s.cancelled = false
  closed : s.closed = true ↔ s.closer = .done

def sampleInfo (signer : String) (payload : Payload) : Incoming := ⟨some signer, payload⟩

/-- A message that does not decode and one with a wrong signature; the first error is reported
while the next message is read. -/
def sampleEvents : List Event :=
  [.check, .readMsg (sampleInfo "a" .garbled), .check, .readMsg (sampleInfo "b" .other), .check,
    .work (sampleInfo "b" .other), .work (sampleInfo "a" .garbled), .fire .decode,
    .collect .decode, .readMsg (sampleInfo "a" (.packet (.checkpoin ⟨"a", 1, 1, ""⟩))), .check]

end Messages

/-! ## The end of the goroutines -/

section Ending

/-- The events with which the goroutines end by themselves. -/
def Event.ends : Event → Bool
  | .work _ => true
  | .dismiss _ => true
  | .endCollecting => true
  | .drain _ => true
  | .closeChan => true
  | .recover _ => true
  | _ => false

def Closer.left : Closer → ℕ
  | .done => 0
  | _ => 1

def remaining (s : Handling) : ℕ :=
  3 * s.working.length + 2 * s.selecting.length + s.sending.length + s.collecting.toNat +
    s.closer.left

/-- The process lives, `handle` has returned, and no signature check will panic. -/
structure Closing (nodePK : String) (s : Handling) : Prop extends Leaving s where
  left : s.cancelled = true
  alive : s.dead = false
  checked : ∀ cd ∈ s.working, treat nodePK cd ≠ .panics

def Winds (nodePK : String) (s : Handling) : Prop :=
  ∃ event : Event, event.ends = true ∧ enabled nodePK s event ∧
    Closing nodePK (next nodePK s event) ∧ remaining (next nodePK s event) < remaining s

end Ending

end PbftBlock.HandlerLoop
