import PbftBlock.ConsensusWorker
import PbftBlock.Library.DistinctVotes

/-!
# Certificates, tallies and the block pool

The functions of `eth/pbft-core_basic.go` that the handlers are built from,
with `removeOldConMsg` of `eth/worker.go`. The two commit tallies are kept
apart as in the source: `committed` looks at view and request number only,
`getValidResFromCommit` looks at nothing but the opinion.
-/

namespace PbftBlock.ConsensusBasics

open PbftBlock.ConsensusMessages PbftBlock.ConsensusWorker
open PbftBlock.Library.FiniteMaps PbftBlock.Library.DistinctVotes

set_option autoImplicit false

def inV (worker : Worker) (v : UInt64) : Bool := worker.view == v

def getQuorum (worker : Worker) : Int :=
  if worker.N = 0 ∨ worker.N < 2 then 10000000
  else if worker.N = 2 then worker.N
  else if worker.N = 3 then worker.N - 1
  -- here N ≥ 4, so Go's truncated division is the floor
  else worker.N - worker.N / 3

def getCurrentCSNum (worker : Worker) : Int := worker.N

/-- `JudgeSync` as a test: false when the head lags behind `bn - 1`, the
subtraction wrapping as in Go. -/
def judgeSync (worker : Worker) (bn : UInt64) : Bool := !(worker.currentBlock < bn - 1)

def getRequestFromStore (worker : Worker) (reqDigest : String) : Option Request :=
  worker.reqStore.lookup reqDigest

/-- `getCert`: makes sure the key is present; the pointer it returns is read
through `certAt`. -/
def getCert (worker : Worker) (v reqID : UInt64) : Worker :=
  { worker with
    certStore := match worker.certStore.lookup ⟨v, reqID⟩ with
      | some _ => worker.certStore
      | none => worker.certStore.insert ⟨v, reqID⟩ {} }

theorem cert_at_get_cert (worker : Worker) (v reqID : UInt64) (id : MsgID) :
    certAt (getCert worker v reqID) id = certAt worker id := by
  cases known : worker.certStore.lookup ⟨v, reqID⟩ with
  | some cert => simp only [certAt, getCert, known]
  | none =>
      simp only [certAt, getCert, known]
      rw [lookup_insert_eq]
      by_cases same : id = ⟨v, reqID⟩
      · rw [if_pos same, same, known]
        rfl
      · rw [if_neg same]

def putPrePrepareInCert (worker : Worker) (cview reqID : UInt64) (preprep : PrePrepare) : Worker :=
  modifyCert (getCert worker cview reqID) ⟨cview, reqID⟩ fun cert =>
    { cert with prePrepare := some preprep }

def prePrepared (worker : Worker) (digest : String) (v reqID : UInt64) : Bool :=
  if digest ≠ "" ∧ (worker.reqStore.lookup digest).isNone then false
  else
    match worker.certStore.lookup ⟨v, reqID⟩ with
    | none => false
    | some cert =>
        match cert.prePrepare with
        | none => false
        | some p => p.view == v && p.reqID == reqID && p.requestDigest == digest

def matchesPrepare (digest : String) (v reqID : UInt64) (p : Prepare) : Bool :=
  p.view == v && p.reqID == reqID && p.requestDigest == digest

def prepared (worker : Worker) (digest : String) (v reqID : UInt64) : Bool :=
  if !prePrepared worker digest v reqID then false
  else
    match worker.certStore.lookup ⟨v, reqID⟩ with
    | none => false
    | some cert =>
        decide (getQuorum worker ≤ (cert.prepare.countP (matchesPrepare digest v reqID) : Int))

def matchesCommit (v reqID : UInt64) (p : Commit) : Bool := p.view == v && p.reqID == reqID

/-- The commits `committed` counts: of each sender the first that names the
view and the request number. -/
def committedVotes (cert : MsgCert) (v reqID : UInt64) : List Commit :=
  counted Commit.sender (cert.commit.filter (matchesCommit v reqID))

def committed (worker : Worker) (digest : String) (v reqID : UInt64) : Bool :=
  if !prepared worker digest v reqID then false
  else
    match worker.certStore.lookup ⟨v, reqID⟩ with
    | none => false
    | some cert => decide (getQuorum worker ≤ ((committedVotes cert v reqID).length : Int))

inductive Verdict where
  | possitive
  | futurePossitive
  | negative
deriving DecidableEq

def getValidResFromCommit (worker : Worker) (cert : MsgCert) : Verdict :=
  let votes := counted Commit.sender cert.commit
  let poss : Int := votes.countP fun com => com.vr.opinion
  let all : Int := votes.length
  let future := getCurrentCSNum worker - all
  let quorum := getQuorum worker
  if quorum ≤ poss then .possitive
  else if quorum ≤ poss + future then .futurePossitive
  else .negative

def txExeCounts (prepares : List Prepare) (digest : String) (v reqID : UInt64) :
    FiniteMap Bytes Nat :=
  prepares.foldl
    (fun counts p =>
      if matchesPrepare digest v reqID p && p.txsExeSeqs.length != 0 then
        counts.insert p.txsExeSeqs ((counts.lookup p.txsExeSeqs).getD 0 + 1)
      else counts)
    ∅

/-- The range over `txExeCounts` with its strict maximum, for one iteration
order of the map. -/
def mostFrequent (entries : List (Sigma fun _ : Bytes => Nat)) : Bytes × Nat :=
  entries.foldl (fun best entry => if best.2 < entry.2 then (entry.1, entry.2) else best) ([], 0)

def getConsensusTxExes (worker : Worker) (digest : String) (v reqID : UInt64) :
    Except String Bytes :=
  match worker.certStore.lookup ⟨v, reqID⟩ with
  | none => .error "cert is nil"
  | some cert =>
      let best := mostFrequent (txExeCounts cert.prepare digest v reqID).entries
      if getQuorum worker ≤ (best.2 : Int) then .ok best.1
      else .error "not have consensus txdepend reached quorumNum"

def putBlockOnPossibleValidBlock (worker : Worker) (block : Block) : Worker :=
  let blocks := (worker.possibleValidBlock.lookup block.number).getD ∅
  { worker with
    possibleValidBlock := worker.possibleValidBlock.insert block.number
      (blocks.insert (blockHash block) block) }

def getBlockFromPossibleValidBlock (worker : Worker) (bn : UInt64) (bhash : String) :
    Option Block :=
  (worker.possibleValidBlock.lookup bn).bind fun blocks => blocks.lookup bhash

def addbeats (now : Instant) (worker : Worker) (n : String) : Worker :=
  { worker with
    blockbeats := match worker.blockbeats.lookup n with
      | some _ => worker.blockbeats
      | none => worker.blockbeats.insert n now }

/-- `PutPVBAndBeats` on a block that is not nil; a nil block panics in its
callers. -/
def putPVBAndBeats (now : Instant) (worker : Worker) (block : Block) : Worker :=
  addbeats now (putBlockOnPossibleValidBlock worker block) (blockHash block)

/-- `deleteImpossibleValidBlock`: drops the heights up to `dbn`, and the timers
of all hashes found there. -/
def deleteImpossibleValidBlock (worker : Worker) (dbn : UInt64) : Worker :=
  let expired := fun hash : String =>
    worker.possibleValidBlock.entries.any fun entry =>
      decide (entry.1 ≤ dbn) && (entry.2.lookup hash).isSome
  { worker with
    blockbeats := retain (fun hash _ => !expired hash) worker.blockbeats
    possibleValidBlock := retain (fun bn _ => !decide (bn ≤ dbn)) worker.possibleValidBlock }

def deletbeats (worker : Worker) (n : String) : Worker :=
  { worker with blockbeats := worker.blockbeats.erase n }

def deletePVBAndBeats (worker : Worker) (bn : UInt64) (bhash : String) : Worker :=
  deletbeats (deleteImpossibleValidBlock worker bn) bhash

def updateCheckpointBH (worker : Worker) (bh : UInt64) : Worker :=
  { worker with checkpointBH := if worker.checkpointBH < bh then bh else worker.checkpointBH }

def removeOldConMsg (worker : Worker) (reqID : UInt64) : Worker :=
  { worker with
    certStore := retain (fun id _ => !decide (id.n ≤ reqID)) worker.certStore
    reqStore := retain (fun _ request => !decide (request.reqID ≤ reqID)) worker.reqStore }

/-- The body `sendConMsg_transfer1`, `2` and `3` share: only messages of other
senders are forwarded. -/
def sendConMsgTransfer (worker : Worker) (sender : String) (msg : Message) : List Effect :=
  if sender ≠ worker.nodeID then [.transfer ⟨msg, sender, worker.nodeID⟩] else []

@[simp] theorem mem_send_con_msg_transfer (worker : Worker) (sender : String) (msg : Message)
    (effect : Effect) :
    effect ∈ sendConMsgTransfer worker sender msg ↔
      sender ≠ worker.nodeID ∧ effect = .transfer ⟨msg, sender, worker.nodeID⟩ := by
  unfold sendConMsgTransfer
  split_ifs with foreign
  · simp [foreign]
  · simp [foreign]

def sendConMsgTransfer1 (worker : Worker) (preprep : PrePrepare) : List Effect :=
  sendConMsgTransfer worker preprep.sender (.prePrepare preprep)

def sendConMsgTransfer2 (worker : Worker) (prep : Prepare) : List Effect :=
  sendConMsgTransfer worker prep.sender (.prepare prep)

def sendConMsgTransfer3 (worker : Worker) (commit : Commit) : List Effect :=
  sendConMsgTransfer worker commit.sender (.commit commit)

end PbftBlock.ConsensusBasics
