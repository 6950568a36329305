import PbftBlock.ChainHead
import PbftBlock.RejectedMessages

/-!
# Making a block and proposing it

`StartConsensus` of `eth/pbft-core.go` builds a block on top of what
`chain.ReturnCurrentBlock` returns. That is a static block of height 1, while
`RecvCommit` advances the counter `chain.CurrentBlock`. The two agree until the
first block is decided; after that the leader builds blocks that its own
`SendRequest` drops.
-/

namespace PbftBlock.StartConsensus

open PbftBlock.ConsensusMessages PbftBlock.ConsensusWorker PbftBlock.ConsensusBasics
open PbftBlock.ConsensusHandlers PbftBlock.HandlerActions PbftBlock.ActionChanges
open PbftBlock.NodeMachine PbftBlock.CommitOncePerHeight PbftBlock.PrepareDigests
open PbftBlock.CertificateVotes PbftBlock.ChainHead
open PbftBlock.Library.GuardedRuns

set_option autoImplicit false

section Transcription

/-- The fields of `worker` that end up in a new block's header, and the number
of transactions `StartConsensus` waits for. -/
structure MinerSetup where
  coinbase : Address
  extra : Bytes
  chainName : String
  txNumStartconsens : Int

/-- A node with what `StartConsensus` needs: `currentblock` is the package
variable of that name. -/
structure Miner where
  replica : Replica
  setup : MinerSetup
  mining : Bool
  hasUnDealTxs : Bool
  currentblock : Block

/-- The static `currentblock`, whose time is that of the start of the process. -/
def staticBlock (started : Instant) : Block := ⟨1, 1, started, none, [none], [none], [none]⟩

def startMiner (nodeID leader : String) (peersnum : Int) (setup : MinerSetup)
    (started : Instant) : Miner :=
  ⟨boot nodeID leader peersnum, setup, false, false, staticBlock started⟩

def returnCurrentBlock (miner : Miner) : Block := miner.currentblock

def txPoolCount : Int := 51

def isLeader (worker : Worker) : Bool := worker.leader == worker.nodeID

def canMining (mining : Bool) (worker : Worker) : Bool :=
  if mining then false
  else if (worker.possibleValidBlock.lookup (worker.currentBlock + 1)).isSome then false
  else isLeader worker && worker.ready

/-- Go's conversion `string(n)` of an integer: one rune, or the replacement
character. -/
def runeString (n : Int64) : String :=
  if 0 ≤ n ∧ n.toInt.toNat.isValidChar then String.singleton (Char.ofNat n.toInt.toNat)
  else String.singleton (Char.ofNat 0xFFFD)

def minedHeader (setup : MinerSetup) (now : Instant) (parent : Block) : Header :=
  let num := parent.number.toInt64
  { parentHash := blockHash parent
    number := some (num + 1).toInt
    coinbase := setup.coinbase
    extra := setup.extra
    time := some (now / 10 ^ 9 : Nat)
    chainName := setup.chainName
    root := runeString (num + 1) ++ blockHash parent }

def minedBlock (setup : MinerSetup) (now : Instant) (parent : Block) : Block :=
  let header := minedHeader setup now parent
  { number := (parent.number.toInt64 + 1).toUInt64
    valid := 0
    timee := 0
    header := some header
    txs := [some ⟨"dddd"⟩]
    uncles := [some header]
    receipt := [some ⟨"receipt"⟩] }

def blockByte : Bytes := "随便".toUTF8.data.toList

/-- `StartConsensus` after the tests: pool the block and send it as a request. -/
def proposeBlock (now : Instant) (miner : Miner) : Miner :=
  let block := minedBlock miner.setup now (returnCurrentBlock miner)
  let worker := { miner.replica.worker with consensusCtx := .live }
  let worker := putPVBAndBeats now worker block
  { miner with
    replica := absorb miner.replica miner.replica.pending (sendRequest worker ⟨some block, blockByte⟩)
    mining := false }

def startConsensus (now : Instant) (miner : Miner) : Result × Miner :=
  if 0 < miner.setup.txNumStartconsens ∧ txPoolCount < miner.setup.txNumStartconsens then
    (.err "error", { miner with hasUnDealTxs := true })
  else if canMining miner.mining miner.replica.worker then
    if miner.replica.worker.consensusCtx = .live then (.err "error", miner)
    else (.ok, proposeBlock now miner)
  else (.ok, { miner with hasUnDealTxs := true })

inductive MinerEvent where
  | start (now : Instant)
  | node (event : Event)

def minerStep (miner : Miner) : MinerEvent → Option Miner
  | .start now => if miner.replica.alive then some (startConsensus now miner).2 else none
  | .node event => (step miner.replica event).map fun replica => { miner with replica := replica }

end Transcription

theorem mined_block_number (setup : MinerSetup) (now : Instant) (parent : Block) :
    (minedBlock setup now parent).number = parent.number + 1 := by
  unfold minedBlock
  dsimp only
  rw [Int64.toUInt64_add, UInt64.toUInt64_toInt64]
  rfl

theorem propose_block_worker (now : Instant) (miner : Miner) :
    (proposeBlock now miner).replica.worker.currentBlock = miner.replica.worker.currentBlock := by
  unfold proposeBlock sendRequest
  dsimp only
  split_ifs <;> rfl

theorem start_consensus_head (now : Instant) (miner : Miner) :
    (startConsensus now miner).2.replica.worker.currentBlock = miner.replica.worker.currentBlock ∧
      (startConsensus now miner).2.currentblock = miner.currentblock := by
  unfold startConsensus
  split_ifs
  · exact ⟨rfl, rfl⟩
  · exact ⟨rfl, rfl⟩
  · exact ⟨propose_block_worker now miner, rfl⟩
  · exact ⟨rfl, rfl⟩

theorem start_step_eq {miner after : Miner} {now : Instant}
    (stepped : minerStep miner (.start now) = some after) :
    after = (startConsensus now miner).2 := by
  unfold minerStep at stepped
  dsimp only at stepped
  split_ifs at stepped
  exact (Option.some.inj stepped).symm

section Runs

/-- The call is no Commit that completes a certificate with a positive verdict. -/
def NothingDecided (worker : Worker) (call : Call) : Prop :=
  ∀ commit, call = .recvCommit commit →
    ¬(committed (withCommit worker commit) commit.requestDigest commit.view commit.reqID = true ∧
      getValidResFromCommit (withCommit worker commit)
        (certAt (withCommit worker commit) ⟨commit.view, commit.reqID⟩) = .possitive)

def NoDecision (miner : Miner) (event : MinerEvent) : Prop :=
  ∀ inner, event = .node inner → EachCall NothingDecided miner.replica inner

/-- Neither copy of the head has moved since the start. -/
structure AtFirstHead (miner : Miner) : Prop where
  parent : (returnCurrentBlock miner).number = 1
  head : miner.replica.worker.currentBlock = 1

theorem run_call_keeps_head (now : Instant) {worker : Worker} {call : Call}
    (undecided : NothingDecided worker call) :
    (runCall now worker call).worker.currentBlock = worker.currentBlock := by
  rcases run_call_head now worker call with kept | ⟨decision, _, called, completes, _⟩
  · exact kept
  · exact absurd ⟨completes.reached, completes.verdict⟩ (undecided decision.commit called)

theorem miner_step_at_first_head {miner after : Miner} {event : MinerEvent}
    (undecided : NoDecision miner event) (stepped : minerStep miner event = some after)
    (prior : AtFirstHead miner) : AtFirstHead after := by
  cases event with
  | start now =>
      obtain rfl := start_step_eq stepped
      obtain ⟨head, parent⟩ := start_consensus_head now miner
      refine ⟨?_, head.trans prior.head⟩
      unfold returnCurrentBlock
      rw [parent]
      exact prior.parent
  | node inner =>
      obtain ⟨replica, ran, rfl⟩ := Option.map_eq_some_iff.mp stepped
      obtain ⟨now, rest, call, called, _, rfl⟩ := step_performs ran
      have head := run_call_keeps_head now (undecided inner rfl call called)
      exact ⟨prior.parent, head.trans prior.head⟩

def EnoughTxs (miner : Miner) : Prop :=
  ¬(0 < miner.setup.txNumStartconsens ∧ txPoolCount < miner.setup.txNumStartconsens)

instance (miner : Miner) : Decidable (EnoughTxs miner) :=
  inferInstanceAs (Decidable ¬(0 < miner.setup.txNumStartconsens ∧
    txPoolCount < miner.setup.txNumStartconsens))

/-- `StartConsensus` gets as far as building a block. -/
def Builds (miner : Miner) : Prop :=
  EnoughTxs miner ∧ canMining miner.mining miner.replica.worker = true ∧
    miner.replica.worker.consensusCtx ≠ .live

instance (miner : Miner) : Decidable (Builds miner) :=
  inferInstanceAs (Decidable (EnoughTxs miner ∧
    canMining miner.mining miner.replica.worker = true ∧
    miner.replica.worker.consensusCtx ≠ .live))

theorem start_consensus_builds (now : Instant) {miner : Miner} (builds : Builds miner) :
    startConsensus now miner = (.ok, proposeBlock now miner) := by
  unfold startConsensus
  rw [if_neg builds.1, if_pos builds.2.1, if_neg builds.2.2]

/-- `SendRequest` posts a request for a block above the head. -/
theorem send_request_posts_above {worker : Worker} {block : Block} (blockbyte : Bytes)
    (above : worker.currentBlock < block.number) :
    ∃ request, .post ⟨.request request, worker.nodeID⟩ ∈
        (sendRequest worker ⟨some block, blockbyte⟩).effects ∧
      request.realblock = some block := by
  unfold sendRequest
  dsimp only
  rw [if_neg (UInt64.not_le.mpr above)]
  exact ⟨_, List.mem_cons_of_mem _ List.mem_cons_self, rfl⟩

theorem propose_block_posts (now : Instant) {miner : Miner}
    (above : miner.replica.worker.currentBlock <
      (minedBlock miner.setup now (returnCurrentBlock miner)).number) :
    ∃ request, .post ⟨.request request, miner.replica.worker.nodeID⟩ ∈
        (proposeBlock now miner).replica.log ∧
      request.realblock = some (minedBlock miner.setup now (returnCurrentBlock miner)) := by
  have pooledAbove : (putPVBAndBeats now { miner.replica.worker with consensusCtx := .live }
      (minedBlock miner.setup now (returnCurrentBlock miner))).currentBlock <
        (minedBlock miner.setup now (returnCurrentBlock miner)).number := above
  obtain ⟨request, posted, carried⟩ := send_request_posts_above blockByte pooledAbove
  exact ⟨request, List.mem_append_right _ posted, carried⟩

/-- Until a block is decided, the parent of new blocks is the head, and the
block `StartConsensus` builds on it is the next one and is sent out. -/
theorem parent_follows_chain (nodeID leader : String) (peersnum : Int) (setup : MinerSetup)
    (started : Instant) (events : List MinerEvent) (last : Miner)
    (run : Run minerStep NoDecision (startMiner nodeID leader peersnum setup started) events last) :
    (returnCurrentBlock last).number = last.replica.worker.currentBlock ∧
      ∀ now, (minedBlock last.setup now (returnCurrentBlock last)).number =
          last.replica.worker.currentBlock + 1 ∧
        (Builds last → ∃ request,
          .post ⟨.request request, last.replica.worker.nodeID⟩ ∈
            (startConsensus now last).2.replica.log ∧
          request.realblock = some (minedBlock last.setup now (returnCurrentBlock last))) := by
  have first : AtFirstHead last :=
    run_invariant AtFirstHead (fun _ _ _ undecided stepped prior =>
      miner_step_at_first_head undecided stepped prior) run ⟨rfl, rfl⟩
  have same := first.parent.trans first.head.symm
  refine ⟨same, fun now => ?_⟩
  have number : (minedBlock last.setup now (returnCurrentBlock last)).number =
      last.replica.worker.currentBlock + 1 := by
    rw [mined_block_number, same]
  refine ⟨number, fun builds => ?_⟩
  rw [start_consensus_builds now builds]
  apply propose_block_posts
  rw [number, first.head]
  decide

/-- Whatever happens, the parent is the first block; and the head has left it
exactly when a block has been decided. -/
structure HeadOrDecision (miner : Miner) : Prop where
  parent : (returnCurrentBlock miner).number = 1
  undecided : (∀ decision, .insertChain decision ∉ miner.replica.log) →
    miner.replica.worker.currentBlock = 1
  decided : (∃ decision, .insertChain decision ∈ miner.replica.log) →
    1 < miner.replica.worker.currentBlock

theorem send_request_decides_nothing (worker : Worker) (raaaa : Raaaa) (decision : Decision) :
    .insertChain decision ∉ (sendRequest worker raaaa).effects := by
  unfold sendRequest
  cases raaaa.block with
  | none => simp [crashed]
  | some block =>
      dsimp only
      split_ifs <;> simp [done]

theorem start_consensus_decides_nothing (now : Instant) (miner : Miner) (decision : Decision) :
    .insertChain decision ∈ (startConsensus now miner).2.replica.log ↔
      .insertChain decision ∈ miner.replica.log := by
  unfold startConsensus
  split_ifs
  · rfl
  · rfl
  · unfold proposeBlock absorb
    dsimp only
    rw [List.mem_append]
    exact or_iff_left (send_request_decides_nothing _ _ _)
  · rfl

/-- A call does not lower the head, and raises it with every decision. -/
theorem run_call_head_rises (now : Instant) (worker : Worker) (call : Call) :
    worker.currentBlock ≤ (runCall now worker call).worker.currentBlock ∧
      ∀ decision, .insertChain decision ∈ (runCall now worker call).effects →
        worker.currentBlock < (runCall now worker call).worker.currentBlock := by
  refine chain_invariant (fun _ => True)
    (fun emitted state => worker.currentBlock ≤ state.currentBlock ∧
      ∀ decision, .insertChain decision ∈ emitted → worker.currentBlock < state.currentBlock)
    ⟨UInt64.le_refl _, by simp⟩ ?_ (run_call_performs now worker call) (fun _ _ => trivial)
  intro emitted state more next action _ prior
  have rises := action_head_monotone action
  refine ⟨UInt64.le_trans prior.1 rises, ?_⟩
  intro decision member
  rcases List.mem_append.mp member with old | new
  · exact UInt64.lt_of_lt_of_le (prior.2 decision old) rises
  · obtain ⟨_, _, above, _, _, _, _, raised⟩ := action_inserts action new
    rw [raised]
    exact UInt64.lt_of_le_of_lt prior.1 (uint64_lt_succ above)

theorem miner_step_head_or_decision {miner after : Miner} {event : MinerEvent}
    (stepped : minerStep miner event = some after) (prior : HeadOrDecision miner) :
    HeadOrDecision after := by
  cases event with
  | start now =>
      obtain rfl := start_step_eq stepped
      obtain ⟨head, parent⟩ := start_consensus_head now miner
      constructor
      · unfold returnCurrentBlock
        rw [parent]
        exact prior.parent
      · simp only [start_consensus_decides_nothing, head]
        exact prior.undecided
      · simp only [start_consensus_decides_nothing, head]
        exact prior.decided
  | node inner =>
      obtain ⟨replica, ran, rfl⟩ := Option.map_eq_some_iff.mp stepped
      obtain ⟨now, rest, call, called, _, rfl⟩ := step_performs ran
      have positive : 1 ≤ miner.replica.worker.currentBlock := by
        by_cases found : ∃ decision, .insertChain decision ∈ miner.replica.log
        · exact UInt64.le_of_lt (prior.decided found)
        · exact UInt64.le_of_eq (prior.undecided fun decision member =>
            found ⟨decision, member⟩).symm
      refine ⟨prior.parent, ?_, ?_⟩
      · intro silent
        have before := prior.undecided fun decision member =>
          silent decision (List.mem_append_left _ member)
        rcases run_call_head now miner.replica.worker call with kept | ⟨decision, inserted, _⟩
        · exact kept.trans before
        · exact absurd (List.mem_append_right _ inserted) (silent decision)
      · rintro ⟨decision, member⟩
        rcases List.mem_append.mp member with old | new
        · exact UInt64.lt_of_lt_of_le (prior.decided ⟨decision, old⟩)
            (run_call_head_rises now miner.replica.worker call).1
        · exact UInt64.lt_of_le_of_lt positive
            ((run_call_head_rises now miner.replica.worker call).2 decision new)

/-- The parent is the head exactly until the first block is decided. -/
theorem parent_is_head_iff_undecided {nodeID leader : String} {peersnum : Int}
    {setup : MinerSetup} {started : Instant} {events : List MinerEvent} {last : Miner}
    (run : Run minerStep (fun _ _ => True) (startMiner nodeID leader peersnum setup started)
      events last) :
    (returnCurrentBlock last).number = last.replica.worker.currentBlock ↔
      ∀ decision, .insertChain decision ∉ last.replica.log := by
  have state : HeadOrDecision last := by
    refine run_invariant HeadOrDecision (fun _ _ _ _ stepped prior =>
      miner_step_head_or_decision stepped prior) run ⟨rfl, fun _ => rfl, ?_⟩
    rintro ⟨decision, member⟩
    simp [startMiner, boot] at member
  rw [state.parent]
  constructor
  · intro same decision member
    have moved := state.decided ⟨decision, member⟩
    rw [← same] at moved
    exact absurd moved (UInt64.lt_irrefl _)
  · intro silent
    exact (state.undecided silent).symm

def decidesNothing (miner : Miner) : MinerEvent → Bool
  | .start _ => true
  | .node inner =>
      match eventCall miner.replica inner with
      | some (.recvCommit commit) =>
          !(committed (withCommit miner.replica.worker commit) commit.requestDigest commit.view
              commit.reqID &&
            getValidResFromCommit (withCommit miner.replica.worker commit)
              (certAt (withCommit miner.replica.worker commit) ⟨commit.view, commit.reqID⟩) =
                .possitive)
      | _ => true

theorem no_decision_of_test (miner : Miner) (event : MinerEvent)
    (passed : decidesNothing miner event = true) : NoDecision miner event := by
  rintro inner isNode call ran commit called ⟨reached, verdict⟩
  subst isNode
  subst called
  simp [decidesNothing, ran, reached, verdict] at passed

def plainSetup : MinerSetup := ⟨hexToAddress "a", [], "chain", 0⟩

/-- The leader of two nodes builds a block and both nodes vote for it. -/
def firstRound : List MinerEvent :=
  [.start 1, .node (.resume 2 0), .node (.resume 3 0), .node (.resume 4 0),
    .node (.invoke 5 (.recvPrepare (voteFor "b" 2 "2"))), .node (.resume 6 0)]

theorem parent_follows_chain_in_first_round :
    ∃ last, Run minerStep NoDecision (startMiner "a" "a" 2 plainSetup 0) firstRound last ∧
      committedHeights last.replica.log = [2] ∧
      (returnCurrentBlock last).number = last.replica.worker.currentBlock := by
  obtain ⟨last, run, posted⟩ : ∃ last,
      Run minerStep NoDecision (startMiner "a" "a" 2 plainSetup 0) firstRound last ∧
        (committedHeights last.replica.log == [2]) = true :=
    run_reaching decidesNothing (fun last : Miner => committedHeights last.replica.log == [2])
      no_decision_of_test (by decide +kernel)
  exact ⟨last, run, eq_of_beq posted,
    (parent_follows_chain "a" "a" 2 plainSetup 0 firstRound last run).1⟩

/-- The second Commit decides the block, and its Checkpoint clears the pool. -/
def secondRound : List MinerEvent :=
  firstRound ++
    [.node (.invoke 7 (.recvCommit (commitVote "b" 2 "2" 2 "2"))),
      .node (.invoke 8 (.recvCheckpoint ⟨"a", 2, 2, "2"⟩))]

/-- After the first decision the head is 2 and the parent still 1: the next block
of the leader has number 2, and its request is not sent. -/
theorem parent_stays_behind_chain :
    ∃ last, Run minerStep (fun _ _ => True) (startMiner "a" "a" 2 plainSetup 0) secondRound last ∧
      (returnCurrentBlock last).number = 1 ∧ last.replica.worker.currentBlock = 2 ∧
      Builds last ∧
      (minedBlock last.setup 9 (returnCurrentBlock last)).number = 2 ∧
      (startConsensus 9 last).2.replica.log = last.replica.log := by
  obtain ⟨last, run, found⟩ : ∃ last,
      Run minerStep (fun _ _ => True) (startMiner "a" "a" 2 plainSetup 0) secondRound last ∧
        decide ((returnCurrentBlock last).number = 1 ∧ last.replica.worker.currentBlock = 2 ∧
          Builds last ∧
          (minedBlock last.setup 9 (returnCurrentBlock last)).number = 2 ∧
          (startConsensus 9 last).2.replica.log = last.replica.log) = true :=
    run_reaching (fun _ _ => true)
      (fun last : Miner => decide ((returnCurrentBlock last).number = 1 ∧
        last.replica.worker.currentBlock = 2 ∧
        Builds last ∧
        (minedBlock last.setup 9 (returnCurrentBlock last)).number = 2 ∧
        (startConsensus 9 last).2.replica.log = last.replica.log))
      (fun _ _ _ => trivial) (by decide +kernel)
  exact ⟨last, run, of_decide_eq_true found⟩

end Runs

section Refusals

def postedRequest : Effect → Option Request
  | .post ⟨.request request, _⟩ => some request
  | _ => none

/-- The call posts no `PBFTRequest`. The history only grows, so the requests
posted by then are those posted before. -/
def ProposesNothing (now : Instant) (miner : Miner) : Prop :=
  (startConsensus now miner).2.replica.log.filterMap postedRequest =
    miner.replica.log.filterMap postedRequest

instance (now : Instant) (miner : Miner) : Decidable (ProposesNothing now miner) :=
  inferInstanceAs (Decidable ((startConsensus now miner).2.replica.log.filterMap postedRequest =
    miner.replica.log.filterMap postedRequest))

/-- What a call without a proposal should leave: the pool, the timers, the
request number and the mining flag as they were, and no new running context, so
that a later call is not turned away because of this one. -/
structure NoTrace (before after : Miner) : Prop where
  pool : after.replica.worker.possibleValidBlock = before.replica.worker.possibleValidBlock
  beats : after.replica.worker.blockbeats = before.replica.worker.blockbeats
  number : after.replica.worker.lastReqID = before.replica.worker.lastReqID
  mining : after.mining = before.mining
  context : after.replica.worker.consensusCtx = .live →
    before.replica.worker.consensusCtx = .live
  admitted : before.replica.worker.consensusCtx ≠ .live →
    ∀ now later, later.replica.worker.consensusCtx = after.replica.worker.consensusCtx →
      EnoughTxs later → canMining later.mining later.replica.worker = true →
      startConsensus now later = (.ok, proposeBlock now later)

/-- A context that was there before admits whom it admitted. -/
theorem no_trace_of_same_worker {before after : Miner}
    (same : after.replica.worker = before.replica.worker) (mining : after.mining = before.mining) :
    NoTrace before after := by
  refine ⟨by rw [same], by rw [same], by rw [same], mining, by rw [same]; exact id, ?_⟩
  intro idle now later kept enough can
  rw [same] at kept
  exact start_consensus_builds now ⟨enough, can, by rw [kept]; exact idle⟩

theorem start_consensus_stops (now : Instant) {miner : Miner} (stops : ¬Builds miner) :
    (startConsensus now miner).2.replica = miner.replica ∧
      (startConsensus now miner).2.mining = miner.mining := by
  unfold startConsensus
  split_ifs with short can running
  · exact ⟨rfl, rfl⟩
  · exact ⟨rfl, rfl⟩
  · exact absurd ⟨short, can, running⟩ stops
  · exact ⟨rfl, rfl⟩

/-- The block that is built reaches the head of the chain at most. -/
def BelowHead (now : Instant) (miner : Miner) : Prop :=
  (minedBlock miner.setup now (returnCurrentBlock miner)).number ≤
    miner.replica.worker.currentBlock

instance (now : Instant) (miner : Miner) : Decidable (BelowHead now miner) :=
  inferInstanceAs (Decidable ((minedBlock miner.setup now (returnCurrentBlock miner)).number ≤
    miner.replica.worker.currentBlock))

theorem send_request_below {worker : Worker} {block : Block} (blockbyte : Bytes)
    (below : block.number ≤ worker.currentBlock) :
    sendRequest worker ⟨some block, blockbyte⟩ =
      done { worker with lastReqID := worker.lastReqID + 1 } [] := by
  unfold sendRequest
  dsimp only
  rw [if_pos below]

theorem propose_block_above (now : Instant) {miner : Miner} (above : ¬BelowHead now miner) :
    (proposeBlock now miner).replica.log.filterMap postedRequest ≠
      miner.replica.log.filterMap postedRequest := by
  have pooledAbove : (putPVBAndBeats now { miner.replica.worker with consensusCtx := .live }
      (minedBlock miner.setup now (returnCurrentBlock miner))).currentBlock <
        (minedBlock miner.setup now (returnCurrentBlock miner)).number := UInt64.not_le.mp above
  obtain ⟨request, posted, _⟩ := send_request_posts_above blockByte pooledAbove
  intro same
  unfold proposeBlock absorb at same
  dsimp only at same
  rw [List.filterMap_append] at same
  have quiet := List.filterMap_eq_nil_iff.mp (List.append_right_eq_self.mp same) _ posted
  cases quiet

theorem propose_block_below (now : Instant) {miner : Miner} (below : BelowHead now miner) :
    (proposeBlock now miner).replica.log = miner.replica.log ∧
      (proposeBlock now miner).replica.worker.lastReqID = miner.replica.worker.lastReqID + 1 := by
  have pooledBelow : (minedBlock miner.setup now (returnCurrentBlock miner)).number ≤
      (putPVBAndBeats now { miner.replica.worker with consensusCtx := .live }
        (minedBlock miner.setup now (returnCurrentBlock miner))).currentBlock := below
  unfold proposeBlock absorb
  dsimp only
  rw [send_request_below blockByte pooledBelow]
  exact ⟨List.append_nil _, rfl⟩

/-- A `StartConsensus` that proposes nothing is a no-op, unless it builds a
block that is not above the head. -/
theorem silent_start_consensus_no_trace_iff (now : Instant) (miner : Miner) :
    (ProposesNothing now miner → NoTrace miner (startConsensus now miner).2) ↔
      ¬(Builds miner ∧ BelowHead now miner) := by
  by_cases builds : Builds miner
  · unfold ProposesNothing
    rw [start_consensus_builds now builds]
    constructor
    · rintro quiet ⟨_, below⟩
      obtain ⟨log, number⟩ := propose_block_below now below
      have same := (quiet (by rw [log])).number
      rw [number] at same
      grind
    · intro sound silent
      exact absurd silent (propose_block_above now fun below => sound ⟨builds, below⟩)
  · obtain ⟨replica, mining⟩ := start_consensus_stops now builds
    refine iff_of_true (fun _ => ?_) fun both => builds both.1
    exact no_trace_of_same_worker (by rw [replica]) mining

/-- After the first decision the leader starts again: nothing is sent, but the
block is pooled and timed, the number has advanced, and the context it leaves
running turns the next call away. -/
theorem silent_start_consensus_leaves_trace :
    ∃ last, Run minerStep (fun _ _ => True) (startMiner "a" "a" 2 plainSetup 0) secondRound last ∧
      ProposesNothing 9 last ∧
      (last.replica.worker.possibleValidBlock.lookup 2).isNone = true ∧
      ((startConsensus 9 last).2.replica.worker.possibleValidBlock.lookup 2).isSome = true ∧
      (startConsensus 9 last).2.replica.worker.blockbeats.lookup "2" = some 9 ∧
      last.replica.worker.lastReqID = 2 ∧
      (startConsensus 9 last).2.replica.worker.lastReqID = 3 ∧
      last.replica.worker.consensusCtx = .cancelled ∧
      (startConsensus 9 last).2.replica.worker.consensusCtx = .live ∧
      EnoughTxs (startConsensus 9 last).2 ∧
      canMining (startConsensus 9 last).2.mining (startConsensus 9 last).2.replica.worker = true ∧
      (startConsensus 10 (startConsensus 9 last).2).1 = .err "error" := by
  obtain ⟨last, run, found⟩ : ∃ last,
      Run minerStep (fun _ _ => True) (startMiner "a" "a" 2 plainSetup 0) secondRound last ∧
        decide (ProposesNothing 9 last ∧
          (last.replica.worker.possibleValidBlock.lookup 2).isNone = true ∧
          ((startConsensus 9 last).2.replica.worker.possibleValidBlock.lookup 2).isSome = true ∧
          (startConsensus 9 last).2.replica.worker.blockbeats.lookup "2" = some 9 ∧
          last.replica.worker.lastReqID = 2 ∧
          (startConsensus 9 last).2.replica.worker.lastReqID = 3 ∧
          last.replica.worker.consensusCtx = .cancelled ∧
          (startConsensus 9 last).2.replica.worker.consensusCtx = .live ∧
          EnoughTxs (startConsensus 9 last).2 ∧
          canMining (startConsensus 9 last).2.mining (startConsensus 9 last).2.replica.worker =
            true ∧
          (startConsensus 10 (startConsensus 9 last).2).1 = .err "error") = true :=
    run_reaching (fun _ _ => true) (fun last : Miner => decide _) (fun _ _ _ => trivial)
      (by decide +kernel)
  exact ⟨last, run, of_decide_eq_true found⟩

end Refusals

end PbftBlock.StartConsensus
