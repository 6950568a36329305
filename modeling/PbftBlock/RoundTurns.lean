import PbftBlock.CorrectCluster

/-!
# One round as a small machine

In a round with a single request all messages are known in advance up to the
name of their sender. What a node has done so far is then a handful of flags
and two lists of names, and every handler call is one of the turns below. The
worker of the node represents this small machine.
-/

namespace PbftBlock.RoundTurns

open PbftBlock.ConsensusMessages PbftBlock.ConsensusWorker PbftBlock.ConsensusBasics
open PbftBlock.ConsensusHandlers PbftBlock.HandlerActions PbftBlock.ActionChanges
open PbftBlock.NodeMachine PbftBlock.NodeContents PbftBlock.ConsensusNetwork
open PbftBlock.NetworkContents PbftBlock.CommitOncePerHeight
open PbftBlock.Library.FiniteMaps PbftBlock.Library.DistinctVotes

set_option autoImplicit false

/-- The leader's block: valid, and one above the head of a node after `Initt`. -/
structure Round where
  cluster : Cluster
  block : Block
  blockbyte : Bytes
  height : block.number = 2
  valid : isValid block = true

def roundDigest : String := itoa 2

def roundKey : MsgID := ⟨1, 2⟩

def roundRequest (round : Round) : Request where
  reqID := 2
  sender := leaderOf round.cluster
  view := 1
  blockHeight := 2
  blockHash := blockHash round.block
  blockCreator := hexToAddress (leaderOf round.cluster)
  block := round.blockbyte
  realblock := some round.block

def proposalOf (round : Round) (name : String) : PrePrepare :=
  ⟨name, 1, 2, roundDigest, some (roundRequest round)⟩

def prepareOf (name : String) : Prepare :=
  ⟨name, 1, 2, roundDigest, tostringTxs blockTransactions⟩

def commitOf (round : Round) (name : String) : Commit :=
  ⟨name, 1, 2, roundDigest,
    ⟨name, 2, blockHash round.block, hexToAddress (leaderOf round.cluster), true, name⟩⟩

/-- What a node has done in the round: has the request, has sent its Prepare,
has counted these Prepares, has sent its Commit, has collected these Commits,
has decided. -/
structure RoundNode where
  stored : Bool := false
  sentPrepare : Bool := false
  heard : List String := []
  sentCommit : Bool := false
  got : List String := []
  decided : Bool := false

structure Sound (quorum : Int) (node : RoundNode) : Prop where
  heardOnce : node.heard.Nodup
  gotOnce : node.got.Nodup
  early : node.stored = false → node.heard = [] ∧ node.sentPrepare = false
  reached : node.sentCommit = true ↔ quorum ≤ (node.heard.length : Int)
  settled : node.decided = true → node.sentCommit = true

def relayed (owner sender : String) (msg : Message) : List Effect :=
  if sender ≠ owner then [.transfer ⟨msg, sender, owner⟩] else []

inductive Turn (round : Round) (quorum : Int) (owner : String) :
    RoundNode → Call → List Effect → RoundNode → Prop where
  | settled (node : RoundNode) (call : Call) (finished : node.decided = true) :
      Turn round quorum owner node call [] node
  | known (node : RoundNode) (held : node.stored = true) :
      Turn round quorum owner node (.recvRequest (roundRequest round)) [] node
  | accept (node : RoundNode) (undecided : node.decided = false) (fresh : node.stored = false) :
      Turn round quorum owner node (.recvRequest (roundRequest round))
        [.spawn (.recvPrePrepare (proposalOf round owner)),
          .post ⟨.prePrepare (proposalOf round owner), owner⟩]
        { node with stored := true }
  | answered (node : RoundNode) (name : String) (sent : node.sentPrepare = true) :
      Turn round quorum owner node (.recvPrePrepare (proposalOf round name)) [] node
  | answer (node : RoundNode) (name : String) (undecided : node.decided = false)
      (unsent : node.sentPrepare = false) :
      Turn round quorum owner node (.recvPrePrepare (proposalOf round name))
        ([.post ⟨.prepare (prepareOf owner), owner⟩, .spawn (.recvPrepare (prepareOf owner))] ++
          relayed owner name (.prePrepare (proposalOf round name)))
        { node with stored := true, sentPrepare := true }
  | dropped (node : RoundNode) (name : String)
      (useless : node.stored = false ∨ name ∈ node.heard ∨ node.sentCommit = true) :
      Turn round quorum owner node (.recvPrepare (prepareOf name)) [] node
  | hear (node : RoundNode) (name : String) (undecided : node.decided = false)
      (held : node.stored = true) (fresh : name ∉ node.heard) (unsent : node.sentCommit = false)
      (short : (node.heard.length : Int) + 1 < quorum) :
      Turn round quorum owner node (.recvPrepare (prepareOf name))
        (relayed owner name (.prepare (prepareOf name)))
        { node with heard := node.heard ++ [name] }
  | reach (node : RoundNode) (name : String) (undecided : node.decided = false)
      (held : node.stored = true) (fresh : name ∉ node.heard) (unsent : node.sentCommit = false)
      (enough : quorum ≤ (node.heard.length : Int) + 1) :
      Turn round quorum owner node (.recvPrepare (prepareOf name))
        ([.post ⟨.commit (commitOf round owner), owner⟩, .spawn (.recvCommit (commitOf round owner))] ++
          relayed owner name (.prepare (prepareOf name)))
        { node with heard := node.heard ++ [name], sentCommit := true }
  | again (node : RoundNode) (name : String) (old : name ∈ node.got) :
      Turn round quorum owner node (.recvCommit (commitOf round name)) [] node
  | collect (node : RoundNode) (name : String) (undecided : node.decided = false)
      (fresh : name ∉ node.got)
      (short : node.sentCommit = false ∨ (node.got.length : Int) + 1 < quorum) :
      Turn round quorum owner node (.recvCommit (commitOf round name))
        (relayed owner name (.commit (commitOf round name)))
        { node with got := node.got ++ [name] }
  | finish (node : RoundNode) (name : String) (block : Option Block)
      (undecided : node.decided = false) (fresh : name ∉ node.got)
      (sent : node.sentCommit = true) (enough : quorum ≤ (node.got.length : Int) + 1) :
      Turn round quorum owner node (.recvCommit (commitOf round name))
        ([.insertChain ⟨commitOf round name, roundRequest round, block⟩,
            .postCheckpoint ⟨owner, 2, 2, blockHash round.block⟩] ++
          relayed owner name (.commit (commitOf round name)))
        { node with got := node.got ++ [name], decided := true }
  | checkpoint (node : RoundNode) (chkpt : Checkpoint) :
      Turn round quorum owner node (.recvCheckpoint chkpt) [] node

inductive RoundCall (round : Round) : Call → Prop where
  | request : RoundCall round (.recvRequest (roundRequest round))
  | prePrepare (name : String) : RoundCall round (.recvPrePrepare (proposalOf round name))
  | prepare (name : String) : RoundCall round (.recvPrepare (prepareOf name))
  | commit (name : String) : RoundCall round (.recvCommit (commitOf round name))
  | checkpoint (chkpt : Checkpoint) : RoundCall round (.recvCheckpoint chkpt)

inductive Phase where
  | prepare
  | commit

def voteOf (round : Round) (name : String) : Phase → Message
  | .prepare => .prepare (prepareOf name)
  | .commit => .commit (commitOf round name)

def sentIn (node : RoundNode) : Phase → Bool
  | .prepare => node.sentPrepare
  | .commit => node.sentCommit

def countedIn (node : RoundNode) : Phase → List String
  | .prepare => node.heard
  | .commit => node.got

def closedIn (node : RoundNode) : Phase → Bool
  | .prepare => node.sentCommit
  | .commit => node.decided

section Turns

variable {round : Round} {quorum : Int} {owner : String} {node next : RoundNode} {call : Call}
  {effects : List Effect}

theorem turn_sound (turn : Turn round quorum owner node call effects next)
    (sound : Sound quorum node) : Sound quorum next := by
  obtain ⟨heardOnce, gotOnce, early, reached, settled⟩ := sound
  cases turn with
  | accept undecided fresh => exact ⟨heardOnce, gotOnce, by simp, reached, settled⟩
  | answer name undecided unsent => exact ⟨heardOnce, gotOnce, by simp, reached, settled⟩
  | hear name undecided held fresh unsent short =>
      refine ⟨?_, gotOnce, by simp [held], ?_, settled⟩
      · rw [← List.concat_eq_append]
        exact heardOnce.concat fresh
      · simp only [unsent, List.length_append, List.length_singleton]
        push_cast
        simpa using short
  | reach name undecided held fresh unsent enough =>
      refine ⟨?_, gotOnce, by simp [held], ?_, fun _ => rfl⟩
      · rw [← List.concat_eq_append]
        exact heardOnce.concat fresh
      · simpa using enough
  | collect name undecided fresh short =>
      refine ⟨heardOnce, ?_, early, reached, settled⟩
      rw [← List.concat_eq_append]
      exact gotOnce.concat fresh
  | finish name block undecided fresh sent enough =>
      refine ⟨heardOnce, ?_, early, reached, fun _ => sent⟩
      rw [← List.concat_eq_append]
      exact gotOnce.concat fresh
  | _ => exact ⟨heardOnce, gotOnce, early, reached, settled⟩

structure Grows (node next : RoundNode) : Prop where
  stored : node.stored = true → next.stored = true
  sentPrepare : node.sentPrepare = true → next.sentPrepare = true
  heard : ∀ name ∈ node.heard, name ∈ next.heard
  sentCommit : node.sentCommit = true → next.sentCommit = true
  got : ∀ name ∈ node.got, name ∈ next.got
  decided : node.decided = true → next.decided = true

theorem grows_refl (node : RoundNode) : Grows node node :=
  ⟨fun held => held, fun sent => sent, fun _ member => member, fun sent => sent,
    fun _ member => member, fun finished => finished⟩

theorem turn_grows (turn : Turn round quorum owner node call effects next) : Grows node next := by
  have same := grows_refl node
  cases turn with
  | accept _ _ =>
      exact ⟨fun _ => rfl, same.sentPrepare, same.heard, same.sentCommit, same.got, same.decided⟩
  | answer name _ _ =>
      exact ⟨fun _ => rfl, fun _ => rfl, same.heard, same.sentCommit, same.got, same.decided⟩
  | hear name _ _ _ _ _ =>
      exact ⟨same.stored, same.sentPrepare, fun _ => List.mem_append_left _, same.sentCommit,
        same.got, same.decided⟩
  | reach name _ _ _ _ _ =>
      exact ⟨same.stored, same.sentPrepare, fun _ => List.mem_append_left _, fun _ => rfl,
        same.got, same.decided⟩
  | collect name _ _ _ =>
      exact ⟨same.stored, same.sentPrepare, same.heard, same.sentCommit,
        fun _ => List.mem_append_left _, same.decided⟩
  | finish name block _ _ _ _ =>
      exact ⟨same.stored, same.sentPrepare, same.heard, same.sentCommit,
        fun _ => List.mem_append_left _, fun _ => rfl⟩
  | _ => exact same

theorem grows_sent (grows : Grows node next) (phase : Phase) (sent : sentIn node phase = true) :
    sentIn next phase = true := by
  cases phase with
  | prepare => exact grows.sentPrepare sent
  | commit => exact grows.sentCommit sent

theorem grows_counted (grows : Grows node next) (phase : Phase) {name : String}
    (counted : name ∈ countedIn node phase) : name ∈ countedIn next phase := by
  cases phase with
  | prepare => exact grows.heard name counted
  | commit => exact grows.got name counted

theorem grows_closed (grows : Grows node next) (phase : Phase)
    (closed : closedIn node phase = true) : closedIn next phase = true := by
  cases phase with
  | prepare => exact grows.sentCommit closed
  | commit => exact grows.decided closed

def effectCall : Effect → Option Call
  | .spawn call => some call
  | effect => (outgoing effect).map packetCall

theorem relayed_call {sender : String} {msg : Message} {effect : Effect} {started : Call}
    (member : effect ∈ relayed owner sender msg) (leads : effectCall effect = some started) :
    started = messageCall msg := by
  unfold relayed at member
  split_ifs at member
  · rw [List.mem_singleton.mp member] at leads
    exact (Option.some.inj leads).symm
  · cases member

/-- What a turn leads to: votes of this node that it has sent, the message it
has just handled, proposals and checkpoints. -/
inductive LeadsTo (round : Round) (owner : String) (call : Call) (next : RoundNode) :
    Call → Prop where
  | relay : LeadsTo round owner call next call
  | proposal (name : String) : LeadsTo round owner call next (.recvPrePrepare (proposalOf round name))
  | vote (phase : Phase) (sent : sentIn next phase = true) :
      LeadsTo round owner call next (messageCall (voteOf round owner phase))
  | checkpoint (chkpt : Checkpoint) : LeadsTo round owner call next (.recvCheckpoint chkpt)

theorem turn_leads_to (turn : Turn round quorum owner node call effects next) {effect : Effect}
    {started : Call} (member : effect ∈ effects) (leads : effectCall effect = some started) :
    LeadsTo round owner call next started := by
  cases turn with
  | accept _ _ =>
      simp only [List.mem_cons, List.not_mem_nil, or_false] at member
      rcases member with rfl | rfl
      · obtain rfl := Option.some.inj leads
        exact .proposal owner
      · obtain rfl := Option.some.inj leads
        exact .proposal owner
  | answer name _ _ =>
      rcases List.mem_append.mp member with own | relay
      · simp only [List.mem_cons, List.not_mem_nil, or_false] at own
        rcases own with rfl | rfl
        · obtain rfl := Option.some.inj leads
          exact .vote .prepare rfl
        · obtain rfl := Option.some.inj leads
          exact .vote .prepare rfl
      · rw [relayed_call relay leads]
        exact .relay
  | hear name _ _ _ _ _ =>
      rw [relayed_call member leads]
      exact .relay
  | reach name _ _ _ _ _ =>
      rcases List.mem_append.mp member with own | relay
      · simp only [List.mem_cons, List.not_mem_nil, or_false] at own
        rcases own with rfl | rfl
        · obtain rfl := Option.some.inj leads
          exact .vote .commit rfl
        · obtain rfl := Option.some.inj leads
          exact .vote .commit rfl
      · rw [relayed_call relay leads]
        exact .relay
  | collect name _ _ _ =>
      rw [relayed_call member leads]
      exact .relay
  | finish name block _ _ _ _ =>
      rcases List.mem_append.mp member with own | relay
      · simp only [List.mem_cons, List.not_mem_nil, or_false] at own
        rcases own with rfl | rfl
        · cases leads
        · obtain rfl := Option.some.inj leads
          exact .checkpoint _
      · rw [relayed_call relay leads]
        exact .relay
  | _ => cases member

theorem turn_counted (turn : Turn round quorum owner node call effects next) (phase : Phase)
    {name : String} (member : name ∈ countedIn next phase) :
    name ∈ countedIn node phase ∨ call = messageCall (voteOf round name phase) := by
  have added : ∀ (list : List String) (voter : String), name ∈ list ++ [voter] →
      name ∈ list ∨ name = voter := fun _ _ => by simp
  cases phase with
  | prepare =>
      cases turn with
      | hear voter _ _ _ _ _ =>
          rcases added _ _ member with old | rfl
          · exact .inl old
          · exact .inr rfl
      | reach voter _ _ _ _ _ =>
          rcases added _ _ member with old | rfl
          · exact .inl old
          · exact .inr rfl
      | _ => exact .inl member
  | commit =>
      cases turn with
      | collect voter _ _ _ =>
          rcases added _ _ member with old | rfl
          · exact .inl old
          · exact .inr rfl
      | finish voter block _ _ _ _ =>
          rcases added _ _ member with old | rfl
          · exact .inl old
          · exact .inr rfl
      | _ => exact .inl member

theorem stored_of_sent (positive : 0 < quorum) (sound : Sound quorum node)
    (sent : node.sentCommit = true) : node.stored = true := by
  by_contra missing
  have empty := (sound.early (by simpa using missing)).1
  have reached := sound.reached.mp sent
  rw [empty, List.length_nil] at reached
  omega

/-- What the node has achieved once it has handled a call. A Prepare counts
only if the request was there. -/
structure Handled (round : Round) (node : RoundNode) (call : Call) (next : RoundNode) : Prop where
  request : call = .recvRequest (roundRequest round) → next.stored = true
  proposal : ∀ name, call = .recvPrePrepare (proposalOf round name) →
    next.sentPrepare = true ∨ next.decided = true
  prepare : ∀ name, call = .recvPrepare (prepareOf name) → node.stored = true →
    next.sentCommit = true ∨ name ∈ next.heard
  commit : ∀ name, call = .recvCommit (commitOf round name) →
    next.decided = true ∨ name ∈ next.got

theorem turn_handled (turn : Turn round quorum owner node call effects next)
    (positive : 0 < quorum) (sound : Sound quorum node) : Handled round node call next := by
  cases turn with
  | settled _ finished =>
      have sent := sound.settled finished
      exact ⟨fun _ => stored_of_sent positive sound sent, fun _ _ => .inr finished,
        fun _ _ _ => .inl sent, fun _ _ => .inl finished⟩
  | known held => exact ⟨fun _ => held, by simp, by simp, by simp⟩
  | accept _ _ => exact ⟨fun _ => rfl, by simp, by simp, by simp⟩
  | answered name sent => exact ⟨by simp, fun _ _ => .inl sent, by simp, by simp⟩
  | answer name _ _ => exact ⟨by simp, fun _ _ => .inl rfl, by simp, by simp⟩
  | dropped name useless =>
      refine ⟨by simp, by simp, ?_, by simp⟩
      intro other same held
      obtain rfl : name = other := congrArg Prepare.sender (Call.recvPrepare.inj same)
      rcases useless with missing | old | sent
      · exact absurd (missing.symm.trans held) (by decide)
      · exact .inr old
      · exact .inl sent
  | hear name _ _ _ _ _ =>
      refine ⟨by simp, by simp, ?_, by simp⟩
      intro other same _
      obtain rfl : name = other := congrArg Prepare.sender (Call.recvPrepare.inj same)
      exact .inr (by simp)
  | reach name _ _ _ _ _ => exact ⟨by simp, by simp, fun _ _ _ => .inl rfl, by simp⟩
  | again name old =>
      refine ⟨by simp, by simp, by simp, ?_⟩
      intro other same
      obtain rfl : name = other := congrArg Commit.sender (Call.recvCommit.inj same)
      exact .inr old
  | collect name _ _ _ =>
      refine ⟨by simp, by simp, by simp, ?_⟩
      intro other same
      obtain rfl : name = other := congrArg Commit.sender (Call.recvCommit.inj same)
      exact .inr (by simp)
  | finish name block _ _ _ _ => exact ⟨by simp, by simp, by simp, fun _ _ => .inl rfl⟩
  | checkpoint chkpt => exact ⟨by simp, by simp, by simp, by simp⟩

/-- A vote that is handled is counted, or not needed; a Prepare only if the
request is there. -/
theorem handled_vote (handled : Handled round node call next) (phase : Phase) (name : String)
    (called : call = messageCall (voteOf round name phase))
    (held : phase = .prepare → node.stored = true) :
    closedIn next phase = true ∨ name ∈ countedIn next phase := by
  cases phase with
  | prepare => exact handled.prepare name called (held rfl)
  | commit => exact handled.commit name called

/-- What becomes true of a node comes with the messages that say so. -/
structure Announces (round : Round) (owner : String) (node : RoundNode) (effects : List Effect)
    (next : RoundNode) : Prop where
  stored : next.stored = true → node.stored = true ∨ next.sentPrepare = true ∨
    .spawn (.recvPrePrepare (proposalOf round owner)) ∈ effects
  sent : ∀ phase, sentIn next phase = true → sentIn node phase = true ∨
    .post ⟨voteOf round owner phase, owner⟩ ∈ effects ∧
      .spawn (messageCall (voteOf round owner phase)) ∈ effects
  decided : next.decided = true → node.decided = true ∨
    ∃ decision, .insertChain decision ∈ effects ∧ decision.request = roundRequest round

theorem turn_announces (turn : Turn round quorum owner node call effects next) :
    Announces round owner node effects next := by
  cases turn with
  | accept _ _ =>
      refine ⟨fun _ => .inr (.inr (by simp)), ?_, .inl⟩
      rintro (_ | _) sent <;> exact .inl sent
  | answer name _ _ =>
      refine ⟨fun _ => .inr (.inl rfl), ?_, .inl⟩
      rintro (_ | _) sent
      · exact .inr (by simp [voteOf, messageCall])
      · exact .inl sent
  | reach name _ _ _ _ _ =>
      refine ⟨.inl, ?_, .inl⟩
      rintro (_ | _) sent
      · exact .inl sent
      · exact .inr (by simp [voteOf, messageCall])
  | finish name block _ _ _ _ =>
      refine ⟨.inl, ?_, fun _ => .inr
        ⟨⟨commitOf round name, roundRequest round, block⟩, by simp, rfl⟩⟩
      rintro (_ | _) sent <;> exact .inl sent
  | hear name _ _ _ _ _ =>
      refine ⟨.inl, ?_, .inl⟩
      rintro (_ | _) sent <;> exact .inl sent
  | collect name _ _ _ =>
      refine ⟨.inl, ?_, .inl⟩
      rintro (_ | _) sent <;> exact .inl sent
  | _ => exact ⟨.inl, fun _ => .inl, .inl⟩

/-- A node that has collected its own Commit and has not decided is short of a
quorum. -/
theorem turn_short (turn : Turn round quorum owner node call effects next)
    (short : node.decided = false → owner ∈ node.got → (node.got.length : Int) < quorum)
    (own : owner ∈ node.got → node.sentCommit = true)
    (ownNext : owner ∈ next.got → next.sentCommit = true) (undecided : next.decided = false)
    (member : owner ∈ next.got) : (next.got.length : Int) < quorum := by
  cases turn with
  | reach name _ _ _ unsent _ => exact absurd (unsent.symm.trans (own member)) (by decide)
  | collect name _ _ few =>
      rcases few with unsent | few
      · exact absurd (unsent.symm.trans (ownNext member)) (by decide)
      · simpa using few
  | finish name block _ _ _ _ => cases undecided
  | _ => exact short undecided member

end Turns

end PbftBlock.RoundTurns
