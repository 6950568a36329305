import PbftBlock.ConsensusMessages
import PbftBlock.Library.FiniteMaps

/-!
# The consensus state of one node

The fields of `worker` in `eth/worker.go` that the consensus handlers read or
write, together with the package variables `commitStore`, `checkpointStore` and
`checkpointBH`, of which a process has one each. A handler call is one step: it
returns a result, the new worker, and what it posted, started or inserted.
-/

namespace PbftBlock.ConsensusWorker

open PbftBlock.ConsensusMessages
open PbftBlock.Library.FiniteMaps

set_option autoImplicit false

structure MsgID where
  v : UInt64
  n : UInt64
deriving DecidableEq

/-- `msgCert`. Its zero value is what `getCert` stores for an unknown key. -/
structure MsgCert where
  prePrepare : Option PrePrepare := none
  sentPrepare : Bool := false
  prepare : List Prepare := []
  sentCommit : Bool := false
  commit : List Commit := []
deriving DecidableEq

/-- `consensusCtx` with its cancel function: unset, running, or cancelled. -/
inductive ConsensusCtx where
  | unset
  | live
  | cancelled
deriving DecidableEq

structure Worker where
  nodeID : String
  leader : String
  view : UInt64
  N : Int
  ready : Bool
  lastReqID : UInt64
  currentBlock : UInt64
  reqStore : FiniteMap String Request
  certStore : FiniteMap MsgID MsgCert
  possibleValidBlock : FiniteMap UInt64 (FiniteMap String Block)
  blockbeats : FiniteMap String Instant
  commitStore : FiniteMap UInt64 String
  checkpointStore : FiniteMap String UInt64
  checkpointBH : UInt64
  chkpt : Bool
  consensusCtx : ConsensusCtx

/-- The worker `Initt` leaves behind, for given identities and network size. -/
def startWorker (nodeID leader : String) (peersnum : Int) : Worker where
  nodeID := nodeID
  leader := leader
  view := 1
  N := peersnum
  ready := true
  lastReqID := 1
  currentBlock := 1
  reqStore := ∅
  certStore := ∅
  possibleValidBlock := ∅
  blockbeats := ∅
  commitStore := ∅
  checkpointStore := ∅
  checkpointBH := 0
  chkpt := false
  consensusCtx := .unset

structure Config where
  myport : String
  peersnum : Int
  peers : List String

def nodeAddress (port : String) : String := "127.0.0.1" ++ port

/-- `Initt`: it takes the first peer as leader, and panics without one. -/
def initt (con : Config) : Option Worker :=
  con.peers.head?.map fun first =>
    startWorker (nodeAddress con.myport) (nodeAddress first) con.peersnum

structure Raaaa where
  block : Option Block
  blockbyte : Bytes
deriving DecidableEq

inductive Call where
  | sendRequest (raaaa : Raaaa)
  | recvRequest (request : Request)
  | recvPrePrepare (preprep : PrePrepare)
  | recvPrepare (prep : Prepare)
  | recvPrepareNotTransfer (prep : Prepare)
  | recvCommit (commit : Commit)
  | recvCheckpoint (chkpt : Checkpoint)
deriving DecidableEq

/-- The handler that `handleMsg` gives a message to. -/
def messageCall : Message → Call
  | .request request => .recvRequest request
  | .prePrepare preprep => .recvPrePrepare preprep
  | .prepare prep => .recvPrepare prep
  | .commit commit => .recvCommit commit

/-- One passage through the positive branch of `RecvCommit`: the commit that
completed the certificate, the request stored under its digest, and the block
selected for insertion (nil when neither the pool nor the request has one). -/
structure Decision where
  commit : Commit
  request : Request
  block : Option Block
deriving DecidableEq

inductive Effect where
  | post (msg : ConsensusMsg)
  | transfer (msg : ConsensusMsg2)
  | postCheckpoint (chkpt : Checkpoint)
  | spawn (call : Call)
  | insertChain (decision : Decision)
deriving DecidableEq

/-- How a handler ends. A panic that no `recover` catches takes the process
down. -/
inductive Result where
  | ok
  | err (text : String)
  | crash
deriving DecidableEq

structure Outcome where
  result : Result
  worker : Worker
  effects : List Effect

def done (worker : Worker) (effects : List Effect) : Outcome := ⟨.ok, worker, effects⟩

def failed (worker : Worker) (text : String) (effects : List Effect) : Outcome :=
  ⟨.err text, worker, effects⟩

/-- A nil dereference under `defer recover()`: what was written stays written. -/
def recovered (worker : Worker) (effects : List Effect) : Outcome :=
  failed worker
    "catch panic: runtime error: invalid memory address or nil pointer dereference " effects

def crashed (worker : Worker) (effects : List Effect) : Outcome := ⟨.crash, worker, effects⟩

def certAt (worker : Worker) (id : MsgID) : MsgCert := (worker.certStore.lookup id).getD {}

def modifyCert (worker : Worker) (id : MsgID) (change : MsgCert → MsgCert) : Worker :=
  { worker with certStore := worker.certStore.insert id (change (certAt worker id)) }

theorem lookup_modify_cert (worker : Worker) (id other : MsgID) (change : MsgCert → MsgCert) :
    (modifyCert worker id change).certStore.lookup other =
      if other = id then some (change (certAt worker id)) else worker.certStore.lookup other :=
  lookup_insert_eq _ _ _ _

theorem cert_at_modify_cert (worker : Worker) (id other : MsgID) (change : MsgCert → MsgCert) :
    certAt (modifyCert worker id change) other =
      if other = id then change (certAt worker id) else certAt worker other := by
  unfold certAt
  rw [lookup_modify_cert]
  split_ifs <;> rfl

theorem cert_at_of_lookup {worker : Worker} {id : MsgID} {cert : MsgCert}
    (present : worker.certStore.lookup id = some cert) : certAt worker id = cert := by
  simp [certAt, present]

end PbftBlock.ConsensusWorker
