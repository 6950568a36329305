import PbftBlock.ConsensusBasics

/-!
# The consensus handlers

`SendRequest`, `RecvRequest`, `RecvPrePrepare`, `RecvPrepare`,
`RecvPrepare_notTransfer`, `RecvCommit` and `RecvCheckpoint` of
`eth/pbft-core.go`, each as one atomic step. A `go RecvX(m)` is an effect: the
call is run later by the same node. Log lines and sleeps are left out; the
texts of the errors are the source's.
-/

namespace PbftBlock.ConsensusHandlers

open PbftBlock.ConsensusMessages PbftBlock.ConsensusWorker PbftBlock.ConsensusBasics
open PbftBlock.Library.FiniteMaps

set_option autoImplicit false

def raiseLastReqID (worker : Worker) (reqID : UInt64) : Worker :=
  { worker with lastReqID := if worker.lastReqID < reqID then reqID else worker.lastReqID }

def storeRequest (worker : Worker) (digest : String) (request : Request) : Worker :=
  { worker with reqStore := worker.reqStore.insert digest request }

def issuedRequest (worker : Worker) (block : Block) (blockbyte : Bytes) : Request where
  reqID := worker.lastReqID
  sender := worker.nodeID
  view := worker.view
  blockHeight := block.number
  blockHash := blockHash block
  blockCreator := hexToAddress worker.nodeID
  block := blockbyte
  realblock := some block

def sendRequest (worker : Worker) (raaaa : Raaaa) : Outcome :=
  let worker := { worker with lastReqID := worker.lastReqID + 1 }
  match raaaa.block with
  | none => crashed worker []
  | some block =>
      if block.number ≤ worker.currentBlock then done worker []
      else
        let request := issuedRequest worker block raaaa.blockbyte
        done worker
          [.spawn (.recvRequest request), .post ⟨.request request, worker.nodeID⟩]

def proposal (worker : Worker) (request : Request) : PrePrepare where
  sender := worker.nodeID
  view := request.view
  reqID := request.reqID
  requestDigest := newhashReq request
  request := some request

def recvRequest (now : Instant) (worker : Worker) (request : Request) : Outcome :=
  let worker := raiseLastReqID worker request.reqID
  if !worker.ready then failed worker "being seletionleader A12" []
  else if request.sender ≠ worker.leader ∨ request.view < worker.view then
    failed worker "req has wrong leader or view  A15" []
  else if (worker.reqStore.lookup (newhashReq request)).isSome then
    failed worker "req has already exists    A17" []
  else if request.blockHeight ≤ worker.currentBlock then
    failed worker "req block already onchain  A19" []
  else
    let worker := storeRequest worker (newhashReq request) request
    if inV worker request.view then
      match request.realblock with
      -- no recover here: a nil block kills the process in PutPVBAndBeats
      | none => crashed worker []
      | some block =>
          let preprep := proposal worker request
          let worker := putPVBAndBeats now worker block
          let worker := putPrePrepareInCert worker request.view request.reqID preprep
          done worker
            [.spawn (.recvPrePrepare preprep), .post ⟨.prePrepare preprep, worker.nodeID⟩]
    else done worker []

/-- The Prepare a node sends for a PrePrepare; the execution sequences are the
constant ones of `Block.Transactions`. -/
def prepareFor (worker : Worker) (preprep : PrePrepare) : Prepare where
  sender := worker.nodeID
  view := preprep.view
  reqID := preprep.reqID
  requestDigest := preprep.requestDigest
  txsExeSeqs := tostringTxs blockTransactions

def answerPrePrepare (worker : Worker) (preprep : PrePrepare) (request : Request)
    (effects : List Effect) : Outcome :=
  let id : MsgID := ⟨preprep.view, request.reqID⟩
  if prePrepared worker preprep.requestDigest preprep.view preprep.reqID &&
      !(certAt worker id).sentPrepare then
    let prep := prepareFor worker preprep
    let worker := modifyCert worker id fun cert => { cert with sentPrepare := true }
    done worker
      (effects ++ [.post ⟨.prepare prep, worker.nodeID⟩, .spawn (.recvPrepare prep)] ++
        sendConMsgTransfer1 worker preprep)
  else done worker effects

def poolPrePrepare (now : Instant) (worker : Worker) (preprep : PrePrepare) (request : Request)
    (effects : List Effect) : Outcome :=
  match getBlockFromPossibleValidBlock worker request.blockHeight request.blockHash with
  | some _ => answerPrePrepare worker preprep request effects
  | none =>
      match request.realblock with
      | none => recovered worker effects
      | some block => answerPrePrepare (putPVBAndBeats now worker block) preprep request effects

def checkPrePrepareDigest (now : Instant) (worker : Worker) (preprep : PrePrepare)
    (request : Request) (effects : List Effect) : Outcome :=
  if (worker.reqStore.lookup preprep.requestDigest).isSome then
    poolPrePrepare now worker preprep request effects
  else if newhashReq request ≠ preprep.requestDigest then done worker effects
  else
    poolPrePrepare now (storeRequest worker (newhashReq request) request) preprep request effects

/-- The write of the cert's prePrepare slot, and the retry of the first stored
Prepare when the certificate was already prepared. -/
def trackPrePrepare (worker : Worker) (preprep : PrePrepare) (request : Request) :
    Worker × List Effect :=
  let id : MsgID := ⟨preprep.view, request.reqID⟩
  let refused := match (certAt worker id).prePrepare with
    | none => false
    | some p => p.requestDigest != preprep.requestDigest
  if refused then (worker, [])
  else
    let worker := modifyCert worker id fun cert => { cert with prePrepare := some preprep }
    if prepared worker preprep.requestDigest preprep.view request.reqID &&
        !(certAt worker id).sentCommit then
      match (certAt worker id).prepare with
      | [] => (worker, [])
      | first :: _ => (worker, [.spawn (.recvPrepareNotTransfer first)])
    else (worker, [])

def certifyPrePrepare (now : Instant) (worker : Worker) (preprep : PrePrepare)
    (request : Request) : Outcome :=
  let worker := getCert worker preprep.view request.reqID
  if prePrepared worker preprep.requestDigest preprep.view preprep.reqID &&
      (certAt worker ⟨preprep.view, request.reqID⟩).sentPrepare then done worker []
  else
    let tracked := trackPrePrepare worker preprep request
    if !prePrepared tracked.1 preprep.requestDigest preprep.view preprep.reqID then
      done tracked.1 tracked.2
    else checkPrePrepareDigest now tracked.1 preprep request tracked.2

def recvPrePrepare (now : Instant) (worker : Worker) (preprep : PrePrepare) : Outcome :=
  if !inV worker preprep.view then done worker []
  else if !worker.ready then failed worker "being seletionleader  A22" []
  else
    match preprep.request with
    -- with or without the digest in reqStore, the next read is through Request
    | none => recovered worker []
    | some request =>
        let stored := (worker.reqStore.lookup preprep.requestDigest).isSome
        if !stored && (request.sender != worker.leader || request.view < worker.view) then
          failed worker "req has wrong leader or view A24" []
        else
          let worker :=
            if stored then worker
            else storeRequest (raiseLastReqID worker preprep.reqID) preprep.requestDigest request
          if request.blockHeight ≤ worker.currentBlock then
            failed worker "preprep.Request block already onchain" []
          else certifyPrePrepare now worker preprep request

/-- The Commit a node sends for a prepared request; `vrsign` writes the node's
own name into `Sign`. -/
def commitFor (worker : Worker) (prep : Prepare) (request : Request) (opnion : Bool) : Commit where
  sender := worker.nodeID
  view := prep.view
  reqID := prep.reqID
  requestDigest := prep.requestDigest
  vr :=
    { sender := worker.nodeID
      blockHeight := request.blockHeight
      blockHash := request.blockHash
      blockCreator := request.blockCreator
      opinion := opnion
      sign := worker.nodeID }

def noteCommit (worker : Worker) (request : Request) : FiniteMap UInt64 String :=
  match worker.commitStore.lookup request.blockHeight with
  | some _ => worker.commitStore
  | none => worker.commitStore.insert request.blockHeight request.blockHash

/-- The critical section on `commitStore`: record the height, then drop the
heights below the head. -/
def recordCommit (worker : Worker) (request : Request) : Worker :=
  { worker with
    commitStore := retain (fun bh _ => !decide (bh < worker.currentBlock))
      (noteCommit worker request) }

def opinionOn (worker : Worker) (prep : Prepare) (block : Block) : Bool :=
  isValid block &&
    (getConsensusTxExes worker prep.requestDigest prep.view prep.reqID).isOk

/-- The block `RecvPrepare` validates and `RecvCommit` inserts: the pooled one
under height and hash, else the one in the request. -/
def selectBlock (worker : Worker) (height : UInt64) (hash : String) (request : Request) :
    Option Block :=
  (getBlockFromPossibleValidBlock worker height hash).or request.realblock

/-- What `RecvPrepare` and `RecvPrepare_notTransfer` do once the certificate is
prepared. They differ in the text `again` and in what they do afterwards. -/
def reachPrepared (worker : Worker) (prep : Prepare) (request : Request) (again : String)
    (transfer : List Effect) : Outcome :=
  if request.blockHeight ≤ worker.currentBlock then failed worker "commit have sent" []
  else
    match selectBlock worker request.blockHeight request.blockHash request with
    | none => recovered worker []
    | some block =>
        let commit := commitFor worker prep request (opinionOn worker prep block)
        let sent := (worker.commitStore.lookup request.blockHeight).isSome
        let worker := recordCommit worker request
        if sent then failed worker again []
        else
          let worker := modifyCert worker ⟨prep.view, prep.reqID⟩ fun cert =>
            { cert with sentCommit := true }
          done worker
            ([.post ⟨.commit commit, worker.nodeID⟩, .spawn (.recvCommit commit)] ++ transfer)

def countPrepare (worker : Worker) (prep : Prepare) (request : Request) (again : String)
    (transfer : List Effect) : Outcome :=
  let id : MsgID := ⟨prep.view, prep.reqID⟩
  let worker := modifyCert worker id fun cert => { cert with prepare := cert.prepare ++ [prep] }
  if prepared worker prep.requestDigest prep.view prep.reqID && !(certAt worker id).sentCommit then
    reachPrepared worker prep request again transfer
  else done worker transfer

def recvPrepare (worker : Worker) (prep : Prepare) : Outcome :=
  if !inV worker prep.view then failed worker "prepare view is not correct" []
  else if !worker.ready then failed worker "A31  being seletionleader" []
  else
    let id : MsgID := ⟨prep.view, prep.reqID⟩
    let worker := getCert worker prep.view prep.reqID
    if (certAt worker id).prepare.any fun prePrep => prePrep.sender == prep.sender then
      failed worker "A33  duplicate prepare msg  A1" []
    else
      match getRequestFromStore worker prep.requestDigest with
      | none => failed worker "A34  do not have req" []
      | some request =>
          if request.blockHeight ≤ worker.currentBlock then
            failed worker "A35  preprep.Request block already onchain" []
          else if (worker.commitStore.lookup request.blockHeight).isSome then
            failed worker "A36  block commit have been sent a1.1" []
          else if prepared worker prep.requestDigest prep.view prep.reqID &&
              (certAt worker id).sentCommit then
            failed worker "A37  has already prepared" []
          else
            countPrepare worker prep request "block commit have been sent  a1.2"
              (sendConMsgTransfer2 worker prep)

/-- The compensation path: a sender already in the cert is not rejected, its
Prepare is appended again, and only the forwarding is skipped. -/
def recvPrepareNotTransfer (worker : Worker) (prep : Prepare) : Outcome :=
  if !inV worker prep.view then failed worker "prepare view is not correct" []
  else if !worker.ready then failed worker "being seletionleader" []
  else
    let id : MsgID := ⟨prep.view, prep.reqID⟩
    let worker := getCert worker prep.view prep.reqID
    let recved := (certAt worker id).prepare.any fun prePrep => prePrep.sender == prep.sender
    match getRequestFromStore worker prep.requestDigest with
    | none => failed worker "do not have req" []
    | some request =>
        if request.blockHeight ≤ worker.currentBlock then
          failed worker "preprep.Request block already onchain" []
        else if (worker.commitStore.lookup request.blockHeight).isSome then
          failed worker "block commit have been sent a1.3" []
        else if prepared worker prep.requestDigest prep.view prep.reqID &&
            (certAt worker id).sentCommit then
          failed worker "has already prepared" []
        else
          countPrepare worker prep request "block commit have been sent a1.4"
            (if recved then [] else sendConMsgTransfer2 worker prep)

def checkpointFor (worker : Worker) (commit : Commit) : Checkpoint where
  sender := worker.nodeID
  blockHeight := commit.vr.blockHeight
  reqID := commit.reqID
  blockHash := commit.vr.blockHash

/-- The positive branch of `RecvCommit`. The head is raised by one, whatever
the height of the commit is. -/
def decidePositive (worker : Worker) (commit : Commit) (request : Request) : Outcome :=
  let block := selectBlock worker commit.vr.blockHeight commit.vr.blockHash request
  if !worker.ready then failed worker "being seletionleader" []
  else if worker.currentBlock < commit.vr.blockHeight then
    let worker := { worker with currentBlock := worker.currentBlock + 1 }
    let checkpoint := checkpointFor worker commit
    let worker := removeOldConMsg worker commit.reqID
    done worker
      ([.insertChain ⟨commit, request, block⟩, .postCheckpoint checkpoint] ++
        sendConMsgTransfer3 worker commit)
  else done worker []

def decideNegative (worker : Worker) (commit : Commit) : Outcome :=
  let checkpoint := checkpointFor worker commit
  let worker := removeOldConMsg worker commit.reqID
  done worker ([.postCheckpoint checkpoint] ++ sendConMsgTransfer3 worker commit)

def reachCommitted (worker : Worker) (commit : Commit) : Outcome :=
  let votesRes := getValidResFromCommit worker (certAt worker ⟨commit.view, commit.reqID⟩)
  match getRequestFromStore worker commit.requestDigest with
  | none => failed worker "cant get commit req" []
  | some request =>
      match votesRes with
      | .possitive => decidePositive worker commit request
      | .negative => decideNegative worker commit
      | .futurePossitive => done worker (sendConMsgTransfer3 worker commit)

def addCommit (worker : Worker) (commit : Commit) : Worker :=
  modifyCert worker ⟨commit.view, commit.reqID⟩ fun cert =>
    { cert with commit := cert.commit ++ [commit] }

def recvCommit (worker : Worker) (commit : Commit) : Outcome :=
  if !inV worker commit.view then failed worker "commit view is not correct" []
  else if !worker.ready then failed worker "being seletionleader" []
  else if commit.vr.blockHeight ≤ worker.currentBlock then
    failed worker "preprep.Request block already onchain" []
  else
    let worker := getCert worker commit.view commit.reqID
    if (certAt worker ⟨commit.view, commit.reqID⟩).commit.any fun prevCommit =>
        prevCommit.sender == commit.sender then
      failed worker "duplicate commit msg" []
    else
      let worker := addCommit worker commit
      if committed worker commit.requestDigest commit.view commit.reqID then
        reachCommitted worker commit
      else done worker (sendConMsgTransfer3 worker commit)

/-- `RecvCheckpoint`, for the head that `instance.chain` points to. -/
def recvCheckpointWith (chain : Option UInt64) (worker : Worker) (chkpt : Checkpoint) :
    Outcome :=
  let bn := chkpt.blockHeight
  let bhash := chkpt.blockHash
  -- the deferred setChkpt(false) runs on every path
  let worker := { worker with chkpt := false }
  if (worker.checkpointStore.lookup bhash).isSome then failed worker "error" []
  else
    let worker := updateCheckpointBH worker bn
    match chain with
    -- neither a test of Ready nor a recover: before Initt the read of chain kills the process
    | none => crashed worker []
    | some cbn =>
        if bn < cbn then failed worker "error" []
        else
          let worker :=
            { worker with
              consensusCtx := if worker.consensusCtx = .unset then .unset else .cancelled }
          let worker := deletePVBAndBeats worker bn bhash
          done
            { worker with
              checkpointStore := retain (fun _ bh => !decide (bh < cbn))
                (worker.checkpointStore.insert bhash bn) } []

def recvCheckpoint (worker : Worker) (chkpt : Checkpoint) : Outcome :=
  recvCheckpointWith (some worker.currentBlock) worker chkpt

def runCall (now : Instant) (worker : Worker) : Call → Outcome
  | .sendRequest raaaa => sendRequest worker raaaa
  | .recvRequest request => recvRequest now worker request
  | .recvPrePrepare preprep => recvPrePrepare now worker preprep
  | .recvPrepare prep => recvPrepare worker prep
  | .recvPrepareNotTransfer prep => recvPrepareNotTransfer worker prep
  | .recvCommit commit => recvCommit worker commit
  | .recvCheckpoint chkpt => recvCheckpoint worker chkpt

end PbftBlock.ConsensusHandlers
