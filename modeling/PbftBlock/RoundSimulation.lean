import PbftBlock.RoundTurns

/-!
# The worker of a round

The worker of a node in a round with a single request represents the node of
the small machine, and every handler call of the round is one of its turns.
-/

namespace PbftBlock.RoundSimulation

open PbftBlock.ConsensusMessages PbftBlock.ConsensusWorker PbftBlock.ConsensusBasics
open PbftBlock.ConsensusHandlers PbftBlock.HandlerActions PbftBlock.ActionChanges
open PbftBlock.NodeMachine PbftBlock.NodeContents PbftBlock.ConsensusNetwork
open PbftBlock.NetworkContents PbftBlock.CommitOncePerHeight PbftBlock.RoundTurns
open PbftBlock.Library.FiniteMaps PbftBlock.Library.DistinctVotes

set_option autoImplicit false

section Representation

/-- The certificate of the round, its slot filled by a proposal of the named
node. -/
def certOf (round : Round) (slot : Option String) (node : RoundNode) : MsgCert where
  prePrepare := slot.map (proposalOf round)
  sentPrepare := node.sentPrepare
  prepare := node.heard.map prepareOf
  sentCommit := node.sentCommit
  commit := node.got.map (commitOf round)

/-- The worker of a node that has not decided. Between two writes of a handler
the request may be there before the slot is filled. -/
structure Frame (round : Round) (worker : Worker) (requested : Bool) (slot : Option String)
    (node : RoundNode) : Prop where
  head : worker.currentBlock = 1
  request : (worker.reqStore.lookup roundDigest).isSome = requested
  cert : certAt worker roundKey = certOf round slot node
  recorded : (worker.commitStore.lookup 2).isSome = node.sentCommit
  pooled : ∀ hash block, getBlockFromPossibleValidBlock worker 2 hash = some block →
    block = round.block

/-- Who the node is, and that it stores nothing but the request of the round. -/
structure Resident (round : Round) (owner : String) (worker : Worker) : Prop where
  identity : identityOf worker =
    ⟨owner, leaderOf round.cluster, 1, peersnumOf round.cluster, true⟩
  requests : ∀ digest request, worker.reqStore.lookup digest = some request →
    request = roundRequest round

structure Represents (round : Round) (owner : String) (worker : Worker) (node : RoundNode) :
    Prop where
  resident : Resident round owner worker
  decided : node.decided = true → worker.currentBlock = 2
  opened : node.decided = false → ∃ slot, slot.isSome = node.stored ∧
    Frame round worker node.stored slot node

/-- The outcome of a call is a turn of the machine the worker represents. -/
def Simulates (round : Round) (owner : String) (node : RoundNode) (call : Call)
    (outcome : Outcome) : Prop :=
  ∃ next, Turn round (quorumOf round.cluster) owner node call outcome.effects next ∧
    Represents round owner outcome.worker next ∧ outcome.result ≠ .crash

variable {round : Round} {owner name : String} {worker : Worker} {node : RoundNode}
  {requested : Bool} {slot : Option String}

theorem start_represents (round : Round) (owner : String) (counter : UInt64) :
    Represents round owner
      { startWorker owner (leaderOf round.cluster) (peersnumOf round.cluster) with
        lastReqID := counter } {} where
  resident := ⟨rfl, fun digest request present => by cases present⟩
  decided finished := by cases finished
  opened _ := ⟨none, rfl, rfl, rfl, rfl, rfl, fun hash block found => by cases found⟩

/-- A node that has not decided is represented by a frame around it. -/
theorem represents_of_frame (resident : Resident round owner worker)
    (undecided : node.decided = false) (filled : slot.isSome = node.stored)
    (frame : Frame round worker node.stored slot node) : Represents round owner worker node where
  resident := resident
  decided finished := absurd (undecided.symm.trans finished) (by decide)
  opened _ := ⟨slot, filled, frame⟩

/-- A refused call leaves behind a worker that represents the same node. -/
theorem simulates_refused {call : Call} {outcome : Outcome}
    (turn : Turn round (quorumOf round.cluster) owner node call [] node)
    (quiet : outcome.effects = []) (ended : outcome.result ≠ .crash)
    (represents : Represents round owner outcome.worker node) :
    Simulates round owner node call outcome := by
  refine ⟨node, ?_, represents, ended⟩
  rw [quiet]
  exact turn

theorem resident_quorum (resident : Resident round owner worker) :
    getQuorum worker = quorumOf round.cluster := by
  have size : worker.N = peersnumOf round.cluster := congrArg Identity.N resident.identity
  unfold quorumOf getQuorum
  rw [size]
  rfl

theorem resident_store (resident : Resident round owner worker) :
    Resident round owner (storeRequest worker roundDigest (roundRequest round)) where
  identity := resident.identity
  requests digest request present := by
    simp only [storeRequest, lookup_insert_eq] at present
    split_ifs at present
    · exact (Option.some.inj present).symm
    · exact resident.requests digest request present

theorem frame_store (frame : Frame round worker requested slot node) :
    Frame round (storeRequest worker roundDigest (roundRequest round)) true slot node where
  head := frame.head
  request := by simp [storeRequest]
  cert := frame.cert
  recorded := frame.recorded
  pooled := frame.pooled

theorem frame_get_cert (frame : Frame round worker requested slot node) :
    Frame round (getCert worker 1 2) requested slot node where
  head := frame.head
  request := frame.request
  cert := by
    rw [cert_at_get_cert]
    exact frame.cert
  recorded := frame.recorded
  pooled := frame.pooled

theorem frame_modify {change : MsgCert → MsgCert} {slot' : Option String} {next : RoundNode}
    (frame : Frame round worker requested slot node)
    (changed : change (certOf round slot node) = certOf round slot' next)
    (same : next.sentCommit = node.sentCommit) :
    Frame round (modifyCert worker roundKey change) requested slot' next where
  head := frame.head
  request := frame.request
  cert := by
    rw [cert_at_modify_cert, if_pos rfl, frame.cert]
    exact changed
  recorded := by
    rw [same]
    exact frame.recorded
  pooled := frame.pooled

theorem frame_pool (now : Instant) (frame : Frame round worker requested slot node) :
    Frame round (putPVBAndBeats now worker round.block) requested slot node where
  head := frame.head
  request := frame.request
  cert := frame.cert
  recorded := frame.recorded
  pooled hash block found := by
    have old := frame.pooled hash block
    obtain ⟨cluster, ⟨number, valid, timee, header, txs, uncles, receipt⟩, bytes, height, good⟩ :=
      round
    obtain rfl : number = 2 := height
    simp only [getBlockFromPossibleValidBlock, putPVBAndBeats, addbeats,
      putBlockOnPossibleValidBlock, lookup_insert_eq, if_true, Option.bind_some] at found old
    split_ifs at found with here
    · exact (Option.some.inj found).symm
    · apply old
      cases present : worker.possibleValidBlock.lookup 2 with
      | none => simp [present] at found
      | some blocks => simpa [present] using found

end Representation

section Tallies

variable {round : Round} {worker : Worker} {node : RoundNode} {requested : Bool}
  {slot : Option String}

theorem frame_pre_prepared (frame : Frame round worker requested slot node) :
    prePrepared worker roundDigest 1 2 = (requested && slot.isSome) := by
  have named : (roundDigest == "") = false := by decide +kernel
  rw [pre_prepared_eq, named, Bool.false_or, frame.request]
  have cert : (certAt worker ⟨1, 2⟩).prePrepare = slot.map (proposalOf round) :=
    congrArg MsgCert.prePrepare frame.cert
  rw [cert]
  cases slot <;> simp [proposalOf]

theorem matching_prepares (names : List String) :
    (names.map prepareOf).countP (matchesPrepare roundDigest 1 2) = names.length := by
  rw [List.countP_eq_length.mpr, List.length_map]
  intro prep member
  obtain ⟨name, _, rfl⟩ := List.mem_map.mp member
  simp [matchesPrepare, prepareOf]

theorem frame_prepared (frame : Frame round worker requested slot node) :
    prepared worker roundDigest 1 2 =
      (requested && slot.isSome && decide (getQuorum worker ≤ (node.heard.length : Int))) := by
  have cert : (certAt worker ⟨1, 2⟩).prepare = node.heard.map prepareOf :=
    congrArg MsgCert.prepare frame.cert
  rw [prepared_eq, frame_pre_prepared frame, cert, matching_prepares]

theorem commit_senders (round : Round) (names : List String) :
    (names.map (commitOf round)).map Commit.sender = names := by
  rw [List.map_map]
  exact List.map_id names

theorem counted_commits {names : List String} (distinct : names.Nodup) :
    counted Commit.sender (names.map (commitOf round)) = names.map (commitOf round) := by
  apply counted_all
  rw [commit_senders]
  exact distinct

theorem frame_committed (frame : Frame round worker requested slot node)
    (distinct : node.got.Nodup) :
    committed worker roundDigest 1 2 =
      (prepared worker roundDigest 1 2 &&
        decide (getQuorum worker ≤ (node.got.length : Int))) := by
  have cert : (certAt worker ⟨1, 2⟩).commit = node.got.map (commitOf round) :=
    congrArg MsgCert.commit frame.cert
  have all : (node.got.map (commitOf round)).filter (matchesCommit 1 2) =
      node.got.map (commitOf round) := by
    apply List.filter_eq_self.mpr
    intro commit member
    obtain ⟨name, _, rfl⟩ := List.mem_map.mp member
    simp [matchesCommit, commitOf]
  rw [committed_eq, committedVotes, cert, all, counted_commits distinct, List.length_map]

theorem frame_verdict (frame : Frame round worker requested slot node)
    (distinct : node.got.Nodup) (enough : getQuorum worker ≤ (node.got.length : Int)) :
    getValidResFromCommit worker (certAt worker roundKey) = .possitive := by
  have favour : (node.got.map (commitOf round)).countP (fun com => com.vr.opinion) =
      node.got.length := by
    rw [List.countP_eq_length.mpr, List.length_map]
    intro commit member
    obtain ⟨name, _, rfl⟩ := List.mem_map.mp member
    rfl
  unfold getValidResFromCommit
  rw [frame.cert]
  simp only [certOf, counted_commits distinct, favour]
  rw [if_pos enough]

/-- Equal execution sequences are counted under one key. -/
theorem count_sequences (names : List String) (start : Nat) :
    (names.map prepareOf).foldl
      (fun counts p =>
        if matchesPrepare roundDigest 1 2 p && p.txsExeSeqs.length != 0 then
          counts.insert p.txsExeSeqs ((counts.lookup p.txsExeSeqs).getD 0 + 1)
        else counts)
      ((∅ : FiniteMap Bytes Nat).insert (tostringTxs blockTransactions) start) =
      (∅ : FiniteMap Bytes Nat).insert (tostringTxs blockTransactions) (start + names.length) := by
  have counts : ∀ name, (matchesPrepare roundDigest 1 2 (prepareOf name) &&
      (prepareOf name).txsExeSeqs.length != 0) = true := by
    intro name
    simp [matchesPrepare, prepareOf, tostringTxs]
  induction names generalizing start with
  | nil => rfl
  | cons name rest ih =>
      rw [List.map_cons, List.foldl_cons, if_pos (counts name)]
      simp only [prepareOf, lookup_insert_self, Option.getD_some, AList.insert_insert]
      rw [List.length_cons, Nat.add_comm rest.length 1, ← Nat.add_assoc]
      exact ih (start + 1)

theorem tx_exe_counts_prepares (name : String) (rest : List String) :
    (txExeCounts ((name :: rest).map prepareOf) roundDigest 1 2).entries =
      [⟨tostringTxs blockTransactions, 1 + rest.length⟩] := by
  unfold txExeCounts
  rw [List.map_cons, List.foldl_cons, if_pos (by simp [matchesPrepare, prepareOf, tostringTxs])]
  exact congrArg AList.entries (count_sequences rest 1)

theorem frame_opinion (frame : Frame round worker requested slot node) (name : String)
    (enough : getQuorum worker ≤ (node.heard.length : Int)) (some : node.heard ≠ []) :
    opinionOn worker (prepareOf name) round.block = true := by
  obtain ⟨first, rest, heard⟩ := List.exists_cons_of_ne_nil some
  have cert : (certAt worker ⟨1, 2⟩).prepare = (first :: rest).map prepareOf := by
    rw [← heard]
    exact congrArg MsgCert.prepare frame.cert
  rw [heard, List.length_cons] at enough
  unfold opinionOn getConsensusTxExes
  rw [round.valid, Bool.true_and]
  cases known : worker.certStore.lookup ⟨1, 2⟩ with
  | none => simp [certAt, known] at cert
  | some stored =>
      rw [cert_at_of_lookup known] at cert
      simp only [prepareOf, known, cert, tx_exe_counts_prepares, mostFrequent, List.foldl_cons,
        List.foldl_nil]
      have positive : 0 < 1 + rest.length := by omega
      rw [if_pos positive, if_pos (by push_cast at enough ⊢; omega)]
      rfl

end Tallies

section Handlers

variable {round : Round} {owner : String} {worker : Worker} {node : RoundNode}

theorem resident_fields (resident : Resident round owner worker) :
    worker.nodeID = owner ∧ worker.leader = leaderOf round.cluster ∧ worker.view = 1 ∧
      worker.ready = true :=
  ⟨congrArg Identity.nodeID resident.identity, congrArg Identity.leader resident.identity,
    congrArg Identity.view resident.identity, congrArg Identity.ready resident.identity⟩

theorem request_above (round : Round) : ¬(roundRequest round).blockHeight ≤ 1 := by
  show ¬(2 : UInt64) ≤ 1
  decide

theorem request_reached (round : Round) : (roundRequest round).blockHeight ≤ 2 :=
  UInt64.le_refl 2

theorem request_trusted (resident : Resident round owner worker) :
    ¬((roundRequest round).sender ≠ worker.leader ∨ (roundRequest round).view < worker.view) := by
  obtain ⟨_, leader, view, _⟩ := resident_fields resident
  rw [leader, view]
  simp [roundRequest]

theorem view_current (resident : Resident round owner worker) : inV worker 1 = true := by
  unfold inV
  rw [(resident_fields resident).2.2.1]
  rfl

/-- The two writes that the machine does not see. -/
theorem represents_raise (represents : Represents round owner worker node) (reqID : UInt64) :
    Represents round owner (raiseLastReqID worker reqID) node where
  resident := ⟨represents.resident.identity, represents.resident.requests⟩
  decided := represents.decided
  opened undecided := by
    obtain ⟨slot, filled, frame⟩ := represents.opened undecided
    exact ⟨slot, filled, frame.head, frame.request, frame.cert, frame.recorded, frame.pooled⟩

theorem represents_get_cert (represents : Represents round owner worker node) :
    Represents round owner (getCert worker 1 2) node where
  resident := ⟨represents.resident.identity, represents.resident.requests⟩
  decided := represents.decided
  opened undecided := by
    obtain ⟨slot, filled, frame⟩ := represents.opened undecided
    exact ⟨slot, filled, frame_get_cert frame⟩

theorem proposing_node_id (now : Instant) (worker : Worker) (digest : String) (request : Request)
    (block : Block) (v n : UInt64) (preprep : PrePrepare) :
    (putPrePrepareInCert (putPVBAndBeats now (storeRequest worker digest request) block) v n
      preprep).nodeID = worker.nodeID := by
  rfl

theorem accept_simulates (now : Instant) (resident : Resident round owner worker)
    {requested : Bool} {slot : Option String} (frame : Frame round worker requested slot node)
    (undecided : node.decided = false) (fresh : node.stored = false) :
    Simulates round owner node (.recvRequest (roundRequest round))
      (done
        (putPrePrepareInCert
          (putPVBAndBeats now (storeRequest worker roundDigest (roundRequest round)) round.block)
          1 2 (proposalOf round worker.nodeID))
        [.spawn (.recvPrePrepare (proposalOf round worker.nodeID)),
          .post ⟨.prePrepare (proposalOf round worker.nodeID), worker.nodeID⟩]) := by
  have stored := resident_store resident
  obtain rfl := (resident_fields resident).1
  have filled : Frame round
      (putPrePrepareInCert
        (putPVBAndBeats now (storeRequest worker roundDigest (roundRequest round)) round.block)
        1 2 (proposalOf round worker.nodeID)) true (some worker.nodeID)
        { node with stored := true } :=
    frame_modify (frame_get_cert (frame_pool now (frame_store frame))) rfl rfl
  refine ⟨{ node with stored := true }, .accept node undecided fresh, ?_, by simp [done]⟩
  exact represents_of_frame ⟨stored.identity, stored.requests⟩ undecided rfl filled

theorem recv_request_simulates (now : Instant) (represents : Represents round owner worker node) :
    Simulates round owner node (.recvRequest (roundRequest round))
      (recvRequest now worker (roundRequest round)) := by
  have raised := represents_raise represents (roundRequest round).reqID
  have ready := (resident_fields raised.resident).2.2.2
  have digest : newhashReq (roundRequest round) = roundDigest := rfl
  unfold recvRequest
  dsimp only
  rw [if_neg (by simp [ready]), if_neg (request_trusted raised.resident), digest]
  cases finished : node.decided with
  | true =>
      have low : (roundRequest round).blockHeight ≤
          (raiseLastReqID worker (roundRequest round).reqID).currentBlock := by
        rw [raised.decided finished]
        exact request_reached round
      rw [if_pos low]
      split_ifs
      · exact simulates_refused (.settled node _ finished) rfl (by simp [failed]) raised
      · exact simulates_refused (.settled node _ finished) rfl (by simp [failed]) raised
  | false =>
      obtain ⟨slot, filled, frame⟩ := raised.opened finished
      rw [frame.request]
      cases held : node.stored with
      | true => exact simulates_refused (.known node held) rfl (by simp [failed]) raised
      | false =>
          have inView : inV (storeRequest (raiseLastReqID worker (roundRequest round).reqID)
              roundDigest (roundRequest round)) (roundRequest round).view = true :=
            view_current (resident_store raised.resident)
          have block : (roundRequest round).realblock = some round.block := rfl
          have proposed : proposal (storeRequest (raiseLastReqID worker (roundRequest round).reqID)
              roundDigest (roundRequest round)) (roundRequest round) =
                proposalOf round (raiseLastReqID worker (roundRequest round).reqID).nodeID := rfl
          rw [if_neg (by decide), if_neg (by rw [frame.head]; exact request_above round),
            if_pos inView, block]
          dsimp only
          rw [proposed, proposing_node_id]
          exact accept_simulates now raised.resident frame finished held

theorem answer_simulates (name : String) (resident : Resident round owner worker)
    {slot : Option String} (filled : slot.isSome = true)
    (frame : Frame round worker true slot { node with stored := true })
    (undecided : node.decided = false) (unsent : node.sentPrepare = false) :
    Simulates round owner node (.recvPrePrepare (proposalOf round name))
      (answerPrePrepare worker (proposalOf round name) (roundRequest round) []) := by
  obtain rfl := (resident_fields resident).1
  have tracked : prePrepared worker roundDigest 1 2 = true := by
    rw [frame_pre_prepared frame, filled]
    rfl
  have flag : (certAt worker roundKey).sentPrepare = false := by
    rw [frame.cert]
    exact unsent
  have due : (prePrepared worker (proposalOf round name).requestDigest (proposalOf round name).view
      (proposalOf round name).reqID &&
      !(certAt worker ⟨(proposalOf round name).view, (roundRequest round).reqID⟩).sentPrepare) =
      true :=
    Bool.and_eq_true_iff.mpr ⟨tracked, congrArg not flag⟩
  have sent : Frame round (modifyCert worker roundKey fun cert => { cert with sentPrepare := true })
      true slot { node with stored := true, sentPrepare := true } :=
    frame_modify frame rfl rfl
  unfold answerPrePrepare
  rw [if_pos due]
  refine ⟨_, .answer node name undecided unsent, ?_, by simp [done]⟩
  exact represents_of_frame ⟨resident.identity, resident.requests⟩ undecided filled sent

theorem pool_simulates (now : Instant) (name : String) (resident : Resident round owner worker)
    {slot : Option String} (filled : slot.isSome = true)
    (frame : Frame round worker true slot { node with stored := true })
    (undecided : node.decided = false) (unsent : node.sentPrepare = false) :
    Simulates round owner node (.recvPrePrepare (proposalOf round name))
      (poolPrePrepare now worker (proposalOf round name) (roundRequest round) []) := by
  unfold poolPrePrepare
  cases getBlockFromPossibleValidBlock worker (roundRequest round).blockHeight
      (roundRequest round).blockHash with
  | some block => exact answer_simulates name resident filled frame undecided unsent
  | none =>
      have pooled : Resident round owner (putPVBAndBeats now worker round.block) :=
        ⟨resident.identity, resident.requests⟩
      exact answer_simulates name pooled filled (frame_pool now frame) undecided unsent

def withSlot (round : Round) (name : String) (worker : Worker) : Worker :=
  modifyCert worker roundKey fun cert => { cert with prePrepare := some (proposalOf round name) }

/-- A prepared certificate has its Commit sent, so the compensation path is not
started. -/
theorem track_without_retry (name : String) (resident : Resident round owner worker)
    {slot : Option String} (frame : Frame round worker true slot node)
    (sound : Sound (quorumOf round.cluster) node) :
    trackPrePrepare worker (proposalOf round name) (roundRequest round) =
      (withSlot round name worker, []) := by
  have free : ∀ p, (certAt worker roundKey).prePrepare = some p →
      (p.requestDigest != (proposalOf round name).requestDigest) = false := by
    rw [frame.cert]
    cases slot <;> simp [certOf, proposalOf]
  have tracked : Frame round (withSlot round name worker) true (some name) node :=
    frame_modify frame rfl rfl
  have idle : (prepared (withSlot round name worker) roundDigest 1 2 &&
      !(certAt (withSlot round name worker) roundKey).sentCommit) = false := by
    have quorum : getQuorum (withSlot round name worker) = quorumOf round.cluster := by
      rw [← resident_quorum resident]
      rfl
    rw [frame_prepared tracked, tracked.cert, quorum]
    by_cases reached : quorumOf round.cluster ≤ (node.heard.length : Int)
    · simp [certOf, sound.reached.mpr reached]
    · simp [reached]
  unfold trackPrePrepare
  dsimp only
  rw [show (proposalOf round name).view = 1 from rfl, show (roundRequest round).reqID = 2 from rfl]
  cases known : (certAt worker ⟨1, 2⟩).prePrepare with
  | none => exact (if_neg Bool.false_ne_true).trans (if_neg (ne_true_of_eq_false idle))
  | some p =>
      have passed := ne_true_of_eq_false (free p known)
      exact (if_neg passed).trans (if_neg (ne_true_of_eq_false idle))

theorem certify_simulates (now : Instant) (name : String) (resident : Resident round owner worker)
    {slot : Option String} (filled : slot.isSome = node.stored)
    (frame : Frame round worker true slot node) (sound : Sound (quorumOf round.cluster) node)
    (undecided : node.decided = false) :
    Simulates round owner node (.recvPrePrepare (proposalOf round name))
      (certifyPrePrepare now worker (proposalOf round name) (roundRequest round)) := by
  have opened := frame_get_cert frame
  have here : Resident round owner (getCert worker 1 2) := ⟨resident.identity, resident.requests⟩
  have answered : (prePrepared (getCert worker 1 2) roundDigest 1 2 &&
      (certAt (getCert worker 1 2) roundKey).sentPrepare) = (node.stored && node.sentPrepare) := by
    rw [frame_pre_prepared opened, opened.cert, filled]
    rfl
  cases sent : node.sentPrepare with
  | true =>
      have held : node.stored = true := by
        by_contra missing
        have early := (sound.early (by simpa using missing)).2
        exact absurd (early.symm.trans sent) (by decide)
      rw [sent, held] at answered
      have refused : certifyPrePrepare now worker (proposalOf round name) (roundRequest round) =
          done (getCert worker 1 2) [] := if_pos answered
      rw [refused]
      rw [← held] at opened
      exact simulates_refused (.answered node name sent) rfl (by simp [done])
        (represents_of_frame here undecided filled opened)
  | false =>
      rw [sent, Bool.and_false] at answered
      have tracked : Frame round (withSlot round name (getCert worker 1 2)) true (some name)
          { node with stored := true } :=
        frame_modify opened rfl rfl
      have ready : prePrepared (withSlot round name (getCert worker 1 2)) roundDigest 1 2 = true :=
        frame_pre_prepared tracked
      have passed : certifyPrePrepare now worker (proposalOf round name) (roundRequest round) =
          checkPrePrepareDigest now (withSlot round name (getCert worker 1 2))
            (proposalOf round name) (roundRequest round) [] := by
        unfold certifyPrePrepare
        dsimp only
        rw [show (proposalOf round name).view = 1 from rfl,
          show (roundRequest round).reqID = 2 from rfl,
          track_without_retry name here opened sound]
        refine (if_neg (ne_true_of_eq_false answered)).trans ?_
        exact if_neg (ne_true_of_eq_false (congrArg not ready))
      rw [passed, check_pre_prepare_digest_skipped now _ _ _ tracked.request]
      exact pool_simulates now name ⟨here.identity, here.requests⟩ rfl tracked undecided sent

def admittedWorker (round : Round) (worker : Worker) : Worker :=
  if (worker.reqStore.lookup roundDigest).isSome then worker
  else storeRequest (raiseLastReqID worker 2) roundDigest (roundRequest round)

theorem recv_pre_prepare_admits (now : Instant) (name : String)
    (resident : Resident round owner worker) :
    recvPrePrepare now worker (proposalOf round name) =
      if (roundRequest round).blockHeight ≤ (admittedWorker round worker).currentBlock then
        failed (admittedWorker round worker) "preprep.Request block already onchain" []
      else certifyPrePrepare now (admittedWorker round worker) (proposalOf round name)
        (roundRequest round) := by
  obtain ⟨_, leader, view, ready⟩ := resident_fields resident
  have trusted : (!(worker.reqStore.lookup roundDigest).isSome &&
      ((roundRequest round).sender != worker.leader ||
        decide ((roundRequest round).view < worker.view))) = false := by
    rw [leader, view]
    simp [roundRequest]
  have inside : (!inV worker 1) = false := congrArg not (view_current resident)
  have active : (!worker.ready) = false := congrArg not ready
  unfold recvPrePrepare
  refine (if_neg (ne_true_of_eq_false inside)).trans ?_
  refine (if_neg (ne_true_of_eq_false active)).trans ?_
  exact if_neg (ne_true_of_eq_false trusted)

theorem recv_pre_prepare_simulates (now : Instant) (name : String)
    (represents : Represents round owner worker node)
    (sound : Sound (quorumOf round.cluster) node) :
    Simulates round owner node (.recvPrePrepare (proposalOf round name))
      (recvPrePrepare now worker (proposalOf round name)) := by
  have admitted : Resident round owner (admittedWorker round worker) := by
    unfold admittedWorker
    split_ifs
    · exact represents.resident
    · exact resident_store (represents_raise represents 2).resident
  have head : (admittedWorker round worker).currentBlock = worker.currentBlock := by
    unfold admittedWorker
    split_ifs <;> rfl
  rw [recv_pre_prepare_admits now name represents.resident, head]
  cases finished : node.decided with
  | true =>
      rw [represents.decided finished, if_pos (request_reached round)]
      refine simulates_refused (.settled node _ finished) rfl (by simp [failed])
        ⟨admitted, fun _ => ?_, fun undecided => ?_⟩
      · exact head.trans (represents.decided finished)
      · exact absurd (undecided.symm.trans finished) (by decide)
  | false =>
      obtain ⟨slot, filled, frame⟩ := represents.opened finished
      rw [frame.head, if_neg (request_above round)]
      have held : Frame round (admittedWorker round worker) true slot node := by
        unfold admittedWorker
        split_ifs with known
        · rw [frame.request] at known
          rw [known] at frame
          exact frame
        · have raised : Frame round (raiseLastReqID worker 2) node.stored slot node :=
            ⟨frame.head, frame.request, frame.cert, frame.recorded, frame.pooled⟩
          exact frame_store raised
      exact certify_simulates now name admitted filled held sound finished

theorem frame_select {requested : Bool} {slot : Option String}
    (frame : Frame round worker requested slot node) :
    selectBlock worker (roundRequest round).blockHeight (roundRequest round).blockHash
      (roundRequest round) = some round.block := by
  unfold selectBlock
  cases found : getBlockFromPossibleValidBlock worker (roundRequest round).blockHeight
      (roundRequest round).blockHash with
  | none => rfl
  | some block => rw [frame.pooled _ block found, Option.some_or]

theorem frame_record {requested : Bool} {slot : Option String}
    (frame : Frame round worker requested slot node) :
    Frame round
      (modifyCert (recordCommit worker (roundRequest round)) roundKey fun cert =>
        { cert with sentCommit := true })
      requested slot { node with sentCommit := true } where
  head := frame.head
  request := frame.request
  cert := by
    have same : certAt (recordCommit worker (roundRequest round)) roundKey = certOf round slot node :=
      frame.cert
    rw [cert_at_modify_cert, if_pos rfl, same]
    rfl
  recorded := by
    have above : ¬(roundRequest round).blockHeight < worker.currentBlock := by
      rw [frame.head]
      show ¬(2 : UInt64) < 1
      decide
    exact lookup_record_commit (.inl rfl) above
  pooled := frame.pooled

theorem reach_simulates (name again : String) (resident : Resident round owner worker)
    {slot : Option String} (filled : slot.isSome = node.stored)
    (frame : Frame round worker node.stored slot { node with heard := node.heard ++ [name] })
    (undecided : node.decided = false) (held : node.stored = true) (fresh : name ∉ node.heard)
    (unsent : node.sentCommit = false)
    (enough : quorumOf round.cluster ≤ (node.heard.length : Int) + 1) :
    Simulates round owner node (.recvPrepare (prepareOf name))
      (reachPrepared worker (prepareOf name) (roundRequest round) again
        (sendConMsgTransfer2 worker (prepareOf name))) := by
  have quorum : getQuorum worker ≤ ((node.heard ++ [name]).length : Int) := by
    rw [resident_quorum resident, List.length_append]
    exact_mod_cast enough
  have opinion : opinionOn worker (prepareOf name) round.block = true :=
    frame_opinion frame name quorum (by simp)
  have unrecorded : (worker.commitStore.lookup (roundRequest round).blockHeight).isSome = false :=
    frame.recorded.trans unsent
  unfold reachPrepared
  rw [frame.head, if_neg (request_above round), frame_select frame]
  dsimp only
  rw [unrecorded, if_neg (by decide), opinion]
  obtain rfl := (resident_fields resident).1
  refine ⟨_, .reach node name undecided held fresh unsent enough, ?_, by simp [done]⟩
  exact represents_of_frame ⟨resident.identity, resident.requests⟩ undecided filled
    (frame_record frame)

def withPrepare (name : String) (worker : Worker) : Worker :=
  modifyCert worker roundKey fun cert => { cert with prepare := cert.prepare ++ [prepareOf name] }

theorem count_simulates (name again : String) (resident : Resident round owner worker)
    {slot : Option String} (filled : slot.isSome = node.stored)
    (frame : Frame round worker node.stored slot node)
    (undecided : node.decided = false) (held : node.stored = true) (fresh : name ∉ node.heard)
    (unsent : node.sentCommit = false) :
    Simulates round owner node (.recvPrepare (prepareOf name))
      (countPrepare worker (prepareOf name) (roundRequest round) again
        (sendConMsgTransfer2 worker (prepareOf name))) := by
  have added : Frame round (withPrepare name worker) node.stored slot
      { node with heard := node.heard ++ [name] } :=
    frame_modify frame (by simp [certOf]) rfl
  have here : Resident round owner (withPrepare name worker) :=
    ⟨resident.identity, resident.requests⟩
  have due : (prepared (withPrepare name worker) roundDigest 1 2 &&
      !(certAt (withPrepare name worker) roundKey).sentCommit) =
      decide (quorumOf round.cluster ≤ (node.heard.length : Int) + 1) := by
    rw [frame_prepared added, added.cert, resident_quorum here, filled, held]
    simp [certOf, unsent]
  by_cases enough : quorumOf round.cluster ≤ (node.heard.length : Int) + 1
  · rw [decide_eq_true enough] at due
    have reached : countPrepare worker (prepareOf name) (roundRequest round) again
        (sendConMsgTransfer2 worker (prepareOf name)) =
        reachPrepared (withPrepare name worker) (prepareOf name) (roundRequest round) again
          (sendConMsgTransfer2 worker (prepareOf name)) := if_pos due
    rw [reached]
    exact reach_simulates name again here filled added undecided held fresh unsent enough
  · rw [decide_eq_false enough] at due
    have waiting : countPrepare worker (prepareOf name) (roundRequest round) again
        (sendConMsgTransfer2 worker (prepareOf name)) =
        done (withPrepare name worker) (sendConMsgTransfer2 worker (prepareOf name)) :=
      if_neg (ne_true_of_eq_false due)
    rw [waiting]
    obtain rfl := (resident_fields resident).1
    refine ⟨_, .hear node name undecided held fresh unsent (by omega), ?_, by simp [done]⟩
    exact represents_of_frame here undecided filled added

theorem heard_of_repeated {requested : Bool} {slot : Option String} {name : String}
    (frame : Frame round worker requested slot node) :
    ((certAt worker roundKey).prepare.any fun prePrep => prePrep.sender == name) = true ↔
      name ∈ node.heard := by
  rw [frame.cert]
  simp [certOf, prepareOf]

theorem recv_prepare_simulates (name : String) (represents : Represents round owner worker node) :
    Simulates round owner node (.recvPrepare (prepareOf name))
      (recvPrepare worker (prepareOf name)) := by
  have opened := represents_get_cert represents
  have inside : (!inV worker (prepareOf name).view) = false :=
    congrArg not (view_current represents.resident)
  have active : (!worker.ready) = false := congrArg not (resident_fields represents.resident).2.2.2
  unfold recvPrepare
  rw [if_neg (ne_true_of_eq_false inside), if_neg (ne_true_of_eq_false active)]
  dsimp only
  rw [show (prepareOf name).view = 1 from rfl, show (prepareOf name).reqID = 2 from rfl,
    show (prepareOf name).requestDigest = roundDigest from rfl,
    show (prepareOf name).sender = name from rfl]
  cases finished : node.decided with
  | true =>
      have refuse : ∀ text, Simulates round owner node (.recvPrepare (prepareOf name))
          (failed (getCert worker 1 2) text []) :=
        fun text => simulates_refused (.settled node _ finished) rfl (by simp [failed]) opened
      split
      · exact refuse _
      · cases found : getRequestFromStore (getCert worker 1 2) roundDigest with
        | none => exact refuse _
        | some request =>
            obtain rfl := opened.resident.requests _ _ found
            dsimp only
            rw [opened.decided finished, if_pos (request_reached round)]
            exact refuse _
  | false =>
      obtain ⟨slot, filled, frame⟩ := opened.opened finished
      have refuse : ∀ text, node.stored = false ∨ name ∈ node.heard ∨ node.sentCommit = true →
          Simulates round owner node (.recvPrepare (prepareOf name))
            (failed (getCert worker 1 2) text []) :=
        fun text useless => simulates_refused (.dropped node name useless) rfl (by simp [failed])
          opened
      split
      · rename_i repeated
        exact refuse _ (.inr (.inl ((heard_of_repeated frame).mp repeated)))
      · rename_i unheard
        have fresh : name ∉ node.heard := fun old => unheard ((heard_of_repeated frame).mpr old)
        cases found : getRequestFromStore (getCert worker 1 2) roundDigest with
        | none =>
            have missing : node.stored = false := by
              rw [← frame.request]
              exact Option.isSome_eq_false_iff.mpr (Option.isNone_iff_eq_none.mpr found)
            exact refuse _ (.inl missing)
        | some request =>
            have held : node.stored = true := by
              rw [← frame.request]
              exact Option.isSome_iff_exists.mpr ⟨request, found⟩
            obtain rfl := opened.resident.requests _ _ found
            dsimp only
            rw [frame.head, if_neg (request_above round)]
            have recorded : ((getCert worker 1 2).commitStore.lookup
                (roundRequest round).blockHeight).isSome = node.sentCommit := frame.recorded
            have flag : (certAt (getCert worker 1 2) ⟨1, 2⟩).sentCommit = node.sentCommit :=
              congrArg MsgCert.sentCommit frame.cert
            rw [recorded, flag]
            cases sent : node.sentCommit with
            | true => exact refuse _ (.inr (.inr sent))
            | false =>
                rw [if_neg (by decide), Bool.and_false, if_neg (by decide)]
                exact count_simulates name _ opened.resident filled frame finished held fresh sent

theorem decide_simulates (name : String) (resident : Resident round owner worker)
    {slot : Option String}
    (frame : Frame round worker node.stored slot { node with got := node.got ++ [name] })
    (distinct : (node.got ++ [name]).Nodup) (undecided : node.decided = false)
    (fresh : name ∉ node.got) (held : node.stored = true) (sent : node.sentCommit = true)
    (enough : quorumOf round.cluster ≤ (node.got.length : Int) + 1) :
    Simulates round owner node (.recvCommit (commitOf round name))
      (reachCommitted worker (commitOf round name)) := by
  have quorum : getQuorum worker ≤ ((node.got ++ [name]).length : Int) := by
    rw [resident_quorum resident, List.length_append]
    exact_mod_cast enough
  have verdict : getValidResFromCommit worker
      (certAt worker ⟨(commitOf round name).view, (commitOf round name).reqID⟩) = .possitive :=
    frame_verdict frame distinct quorum
  obtain ⟨request, found⟩ := Option.isSome_iff_exists.mp (frame.request.trans held)
  obtain rfl := resident.requests _ _ found
  have stored : getRequestFromStore worker (commitOf round name).requestDigest =
      some (roundRequest round) := found
  have ready := (resident_fields resident).2.2.2
  have above : worker.currentBlock < (commitOf round name).vr.blockHeight := by
    rw [frame.head]
    show (1 : UInt64) < 2
    decide
  unfold reachCommitted
  dsimp only
  rw [stored, verdict]
  dsimp only
  unfold decidePositive
  rw [if_neg (ne_true_of_eq_false (congrArg not ready)), if_pos above]
  obtain rfl := (resident_fields resident).1
  refine ⟨_, .finish node name _ undecided fresh sent enough, ⟨?_, ?_, ?_⟩, by simp [done]⟩
  · refine ⟨resident.identity, ?_⟩
    intro digest request present
    exact resident.requests digest request (lookup_retain_some present).1
  · intro _
    show worker.currentBlock + 1 = 2
    rw [frame.head]
    rfl
  · intro undecided
    cases undecided

theorem quorum_positive (cluster : Cluster) : 0 < quorumOf cluster := by
  unfold quorumOf getQuorum
  split_ifs <;> omega

theorem got_of_repeated {requested : Bool} {slot : Option String} {name : String}
    (frame : Frame round worker requested slot node) :
    ((certAt worker roundKey).commit.any fun prevCommit => prevCommit.sender == name) = true ↔
      name ∈ node.got := by
  rw [frame.cert]
  simp [certOf, commitOf]

theorem collect_simulates (name : String) (resident : Resident round owner worker)
    {slot : Option String} (filled : slot.isSome = node.stored)
    (frame : Frame round worker node.stored slot node)
    (sound : Sound (quorumOf round.cluster) node) (undecided : node.decided = false)
    (fresh : name ∉ node.got) :
    Simulates round owner node (.recvCommit (commitOf round name))
      (if committed (addCommit worker (commitOf round name)) roundDigest 1 2 then
        reachCommitted (addCommit worker (commitOf round name)) (commitOf round name)
      else done (addCommit worker (commitOf round name))
        (sendConMsgTransfer3 (addCommit worker (commitOf round name)) (commitOf round name))) := by
  have added : Frame round (addCommit worker (commitOf round name)) node.stored slot
      { node with got := node.got ++ [name] } :=
    frame_modify frame (by simp [certOf]) rfl
  have here : Resident round owner (addCommit worker (commitOf round name)) :=
    ⟨resident.identity, resident.requests⟩
  have distinct : (node.got ++ [name]).Nodup := by
    rw [← List.concat_eq_append]
    exact sound.gotOnce.concat fresh
  have collected : ∀ short : node.sentCommit = false ∨
      (node.got.length : Int) + 1 < quorumOf round.cluster,
      Simulates round owner node (.recvCommit (commitOf round name))
        (done (addCommit worker (commitOf round name))
          (sendConMsgTransfer3 (addCommit worker (commitOf round name)) (commitOf round name))) := by
    intro short
    obtain rfl := (resident_fields resident).1
    refine ⟨_, .collect node name undecided fresh short, ?_, by simp [done]⟩
    exact represents_of_frame here undecided filled added
  have tally : committed (addCommit worker (commitOf round name)) roundDigest 1 2 =
      (node.stored && decide (quorumOf round.cluster ≤ (node.heard.length : Int)) &&
        decide (quorumOf round.cluster ≤ (node.got.length : Int) + 1)) := by
    rw [frame_committed added distinct, frame_prepared added, resident_quorum here, filled]
    simp
  rw [tally]
  by_cases sent : node.sentCommit = true
  · have held := stored_of_sent (quorum_positive round.cluster) sound sent
    rw [held, decide_eq_true (sound.reached.mp sent), Bool.true_and, Bool.true_and]
    by_cases enough : quorumOf round.cluster ≤ (node.got.length : Int) + 1
    · rw [if_pos (decide_eq_true enough)]
      exact decide_simulates name here added distinct undecided fresh held sent enough
    · rw [if_neg (by simpa using enough)]
      exact collected (.inr (by omega))
  · have unreached : ¬quorumOf round.cluster ≤ (node.heard.length : Int) :=
      fun reached => sent (sound.reached.mpr reached)
    rw [decide_eq_false unreached, Bool.and_false, Bool.false_and, if_neg (by decide)]
    exact collected (.inl (by simpa using sent))

theorem recv_commit_simulates (name : String) (represents : Represents round owner worker node)
    (sound : Sound (quorumOf round.cluster) node) :
    Simulates round owner node (.recvCommit (commitOf round name))
      (recvCommit worker (commitOf round name)) := by
  have opened := represents_get_cert represents
  have inside : (!inV worker (commitOf round name).view) = false :=
    congrArg not (view_current represents.resident)
  have active : (!worker.ready) = false := congrArg not (resident_fields represents.resident).2.2.2
  unfold recvCommit
  rw [if_neg (ne_true_of_eq_false inside), if_neg (ne_true_of_eq_false active)]
  cases finished : node.decided with
  | true =>
      have low : (commitOf round name).vr.blockHeight ≤ worker.currentBlock := by
        rw [represents.decided finished]
        exact UInt64.le_refl 2
      rw [if_pos low]
      exact simulates_refused (.settled node _ finished) rfl (by simp [failed]) represents
  | false =>
      obtain ⟨slot, filled, frame⟩ := opened.opened finished
      have high : ¬(commitOf round name).vr.blockHeight ≤ worker.currentBlock := by
        rw [show worker.currentBlock = 1 from frame.head]
        show ¬(2 : UInt64) ≤ 1
        decide
      rw [if_neg high]
      dsimp only
      rw [show (commitOf round name).view = 1 from rfl, show (commitOf round name).reqID = 2 from rfl,
        show (commitOf round name).requestDigest = roundDigest from rfl,
        show (commitOf round name).sender = name from rfl]
      split
      · rename_i repeated
        exact simulates_refused (.again node name ((got_of_repeated frame).mp repeated)) rfl
          (by simp [failed]) opened
      · rename_i uncollected
        have fresh : name ∉ node.got := fun old => uncollected ((got_of_repeated frame).mpr old)
        exact collect_simulates name opened.resident filled frame sound finished fresh

theorem recv_checkpoint_pool (worker : Worker) (chkpt : Checkpoint) {bn : UInt64} {hash : String}
    {block : Block}
    (found : getBlockFromPossibleValidBlock (recvCheckpoint worker chkpt).worker bn hash =
      some block) :
    getBlockFromPossibleValidBlock worker bn hash = some block := by
  unfold getBlockFromPossibleValidBlock at found ⊢
  obtain ⟨blocks, present, inside⟩ := Option.bind_eq_some_iff.mp found
  rw [Option.bind_eq_some_iff]
  refine ⟨blocks, ?_, inside⟩
  unfold recvCheckpoint recvCheckpointWith at present
  dsimp only at present
  split_ifs at present
  · exact present
  · exact present
  all_goals exact (lookup_retain_some present).1

theorem recv_checkpoint_simulates (chkpt : Checkpoint)
    (represents : Represents round owner worker node) :
    Simulates round owner node (.recvCheckpoint chkpt) (recvCheckpoint worker chkpt) := by
  have ended : (recvCheckpoint worker chkpt).result ≠ .crash := by
    unfold recvCheckpoint recvCheckpointWith
    dsimp only
    split_ifs <;> simp [failed, done]
  refine simulates_refused (.checkpoint node chkpt) (recv_checkpoint_silent worker chkpt) ended ?_
  have pooled : ∀ hash block,
      getBlockFromPossibleValidBlock (recvCheckpoint worker chkpt).worker 2 hash = some block →
      getBlockFromPossibleValidBlock worker 2 hash = some block :=
    fun _ _ => recv_checkpoint_pool worker chkpt
  obtain ⟨_, _, _, _, _, frame⟩ := recv_checkpoint_frame worker chkpt
  rw [frame] at pooled ⊢
  refine ⟨⟨represents.resident.identity, represents.resident.requests⟩, represents.decided, ?_⟩
  intro undecided
  obtain ⟨slot, filled, before⟩ := represents.opened undecided
  exact ⟨slot, filled, before.head, before.request, before.cert, before.recorded,
    fun hash block found => before.pooled hash block (pooled hash block found)⟩

/-- Every call of a round is a turn of the machine. -/
theorem run_call_simulates (now : Instant) {call : Call} (inRound : RoundCall round call)
    (represents : Represents round owner worker node)
    (sound : Sound (quorumOf round.cluster) node) :
    Simulates round owner node call (runCall now worker call) := by
  cases inRound with
  | request => exact recv_request_simulates now represents
  | prePrepare name => exact recv_pre_prepare_simulates now name represents sound
  | prepare name => exact recv_prepare_simulates name represents
  | commit name => exact recv_commit_simulates name represents sound
  | checkpoint chkpt => exact recv_checkpoint_simulates chkpt represents

end Handlers

end PbftBlock.RoundSimulation
