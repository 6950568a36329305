import PbftBlock.NodeMachine

/-!
# A node commits to a height once

The flag `sentCommit` dies with its certificate, and `commitStore` forgets the
heights below the head. What survives both is this: a height the node has
committed to is in `commitStore` or below the head, and the head never falls.
-/

namespace PbftBlock.CommitOncePerHeight

open PbftBlock.ConsensusMessages PbftBlock.ConsensusWorker PbftBlock.ConsensusBasics
open PbftBlock.ConsensusHandlers PbftBlock.HandlerActions PbftBlock.ActionChanges
open PbftBlock.NodeMachine
open PbftBlock.Library.FiniteMaps PbftBlock.Library.GuardedRuns

set_option autoImplicit false

variable {now : Instant} {first before after : Worker} {call : Call} {effects : List Effect}

def postedCommit : Effect → Option Commit
  | .post ⟨.commit commit, _⟩ => some commit
  | _ => none

def committedHeights (log : List Effect) : List UInt64 :=
  (log.filterMap postedCommit).map fun commit => commit.vr.blockHeight

theorem committed_heights_append (log more : List Effect) :
    committedHeights (log ++ more) = committedHeights log ++ committedHeights more := by
  simp [committedHeights]

theorem uint64_lt_succ {head bound : UInt64} (below : head < bound) : head < head + 1 := by
  grind

theorem action_head_monotone (action : Action now first call before effects after) :
    before.currentBlock ≤ after.currentBlock := by
  cases action with
  | decidePositive commit request _ _ above _ _ _ =>
      exact UInt64.le_of_lt (uint64_lt_succ above)
  | checkpoint chkpt _ =>
      obtain ⟨_, _, _, _, _, frame⟩ := recv_checkpoint_frame before chkpt
      rw [frame]
      exact UInt64.le_refl _
  | _ => exact UInt64.le_refl _

theorem lookup_note_commit {worker : Worker} {request : Request} {height : UInt64}
    (recorded : height = request.blockHeight ∨ (worker.commitStore.lookup height).isSome = true) :
    ((noteCommit worker request).lookup height).isSome = true := by
  unfold noteCommit
  cases present : worker.commitStore.lookup request.blockHeight with
  | some hash =>
      rcases recorded with rfl | old
      · simp [present]
      · exact old
  | none =>
      dsimp only
      rw [lookup_insert_eq]
      split_ifs with same
      · rfl
      · exact recorded.resolve_left same

theorem lookup_record_commit {worker : Worker} {request : Request} {height : UInt64}
    (recorded : height = request.blockHeight ∨ (worker.commitStore.lookup height).isSome = true)
    (above : ¬height < worker.currentBlock) :
    ((recordCommit worker request).commitStore.lookup height).isSome = true := by
  obtain ⟨hash, found⟩ := Option.isSome_iff_exists.mp (lookup_note_commit recorded)
  have kept : (recordCommit worker request).commitStore.lookup height = some hash :=
    lookup_retain_of_kept found (by simpa using above)
  rw [kept]
  rfl

/-- The invariant: heights committed to are distinct, and each is recorded or
below the head. -/
structure CommitsRecorded (worker : Worker) (log : List Effect) : Prop where
  distinct : (committedHeights log).Nodup
  recorded : ∀ height ∈ committedHeights log,
    (worker.commitStore.lookup height).isSome = true ∨ height < worker.currentBlock

theorem action_keeps_store (action : Action now first call before effects after)
    {height : UInt64} (present : (before.commitStore.lookup height).isSome = true) :
    (after.commitStore.lookup height).isSome = true ∨ height < after.currentBlock := by
  cases action with
  | sendCommit _ prep request block _ _ _ _ _ _ _ =>
      by_cases low : height < before.currentBlock
      · exact .inr low
      · exact .inl (lookup_record_commit (.inr present) low)
  | checkpoint chkpt _ =>
      obtain ⟨_, _, _, _, _, frame⟩ := recv_checkpoint_frame before chkpt
      rw [frame]
      exact .inl present
  | _ => exact .inl present

theorem action_commit_heights (action : Action now first call before effects after) :
    committedHeights effects = [] ∨
      ∃ height, committedHeights effects = [height] ∧ before.currentBlock < height ∧
        before.commitStore.lookup height = none ∧
        (after.commitStore.lookup height).isSome = true := by
  cases action with
  | sendCommit _ prep request block _ _ _ above unsent _ _ =>
      refine .inr ⟨request.blockHeight, rfl, above, unsent, ?_⟩
      have fresh : ¬request.blockHeight < before.currentBlock := by grind
      exact lookup_record_commit (.inl rfl) fresh
  | relay _ msg _ _ =>
      left
      unfold sendConMsgTransfer
      split_ifs <;> rfl
  | _ => exact .inl rfl

theorem action_commits_recorded (action : Action now first call before effects after)
    {log : List Effect} (prior : CommitsRecorded before log) :
    CommitsRecorded after (log ++ effects) := by
  have old : ∀ height ∈ committedHeights log,
      (after.commitStore.lookup height).isSome = true ∨ height < after.currentBlock := by
    intro height member
    rcases prior.recorded height member with present | low
    · exact action_keeps_store action present
    · exact .inr (UInt64.lt_of_lt_of_le low (action_head_monotone action))
  rcases action_commit_heights action with none | ⟨height, one, above, unsent, present⟩
  · refine ⟨?_, ?_⟩
    · rw [committed_heights_append, none, List.append_nil]
      exact prior.distinct
    · rw [committed_heights_append, none, List.append_nil]
      exact old
  · have new : height ∉ committedHeights log := by
      intro again
      rcases prior.recorded height again with stored | low
      · rw [unsent] at stored
        cases stored
      · exact absurd low (by grind)
    constructor
    · rw [committed_heights_append, one, ← List.concat_eq_append]
      exact prior.distinct.concat new
    · rw [committed_heights_append, one]
      intro other member
      rcases List.mem_append.mp member with inside | last
      · exact old other inside
      · rw [List.mem_singleton.mp last]
        exact .inl present

theorem run_commits_recorded {nodeID leader : String} {peersnum : Int} {events : List Event}
    {last : Replica} (run : Run step (fun _ _ => True) (boot nodeID leader peersnum) events last) :
    CommitsRecorded last.worker last.log := by
  have checked : Run step (EachCall fun _ _ => True) (boot nodeID leader peersnum) events last :=
    run_weaken (fun _ _ _ _ _ => trivial) run
  refine run_keeps CommitsRecorded ?_ checked ⟨List.nodup_nil, by simp [boot, committedHeights]⟩
  intro now worker log call _ prior
  exact call_keeps_of_action CommitsRecorded
    (fun _ _ _ _ action recorded => action_commits_recorded action recorded) prior

/-- Two Commits posted for one height are the same Commit. -/
theorem posted_commit_unique {log : List Effect} (distinct : (committedHeights log).Nodup)
    {left right : Commit} {leftSender rightSender : String}
    (leftPosted : .post ⟨.commit left, leftSender⟩ ∈ log)
    (rightPosted : .post ⟨.commit right, rightSender⟩ ∈ log)
    (same : left.vr.blockHeight = right.vr.blockHeight) : left = right := by
  have leftMember : left ∈ log.filterMap postedCommit :=
    List.mem_filterMap.mpr ⟨_, leftPosted, rfl⟩
  have rightMember : right ∈ log.filterMap postedCommit :=
    List.mem_filterMap.mpr ⟨_, rightPosted, rfl⟩
  exact List.inj_on_of_nodup_map distinct leftMember rightMember same

/-- Whatever reaches a node, in whatever order, it posts at most one Commit per
block height. -/
theorem commit_heights_nodup (nodeID leader : String) (peersnum : Int) (events : List Event)
    (last : Replica) (run : Run step (fun _ _ => True) (boot nodeID leader peersnum) events last) :
    (committedHeights last.log).Nodup :=
  (run_commits_recorded run).distinct

def plainBlock (number : UInt64) (valid : Int) : Block :=
  ⟨number, valid, 0, none, [none], [none], [none]⟩

def leaderRequest (leader : String) (reqID : UInt64) (block : Block) : Request :=
  ⟨reqID, leader, 1, block.number, blockHash block, hexToAddress leader, [], some block⟩

def voteFor (sender : String) (reqID : UInt64) (digest : String) : Prepare :=
  ⟨sender, 1, reqID, digest, tostringTxs blockTransactions⟩

/-- One node of four hears the request, its own messages and three Prepares,
the first of them twice. -/
def commitSchedule : List Event :=
  [.invoke 0 (.recvRequest (leaderRequest "a" 2 (plainBlock 2 0))),
    .resume 1 0,
    .resume 2 0,
    .invoke 3 (.recvPrepare (voteFor "a" 2 "2")),
    .invoke 4 (.recvPrepare (voteFor "c" 2 "2")),
    .invoke 5 (.recvPrepare (voteFor "a" 2 "2")),
    .invoke 6 (.recvPrepare (voteFor "d" 2 "2"))]

theorem commit_heights_nodup_on_schedule :
    ∃ last, Run step (fun _ _ => True) (boot "b" "a" 4) commitSchedule last ∧
      committedHeights last.log = [2] ∧ (committedHeights last.log).Nodup := by
  obtain ⟨last, run, posted⟩ : ∃ last,
      Run step (fun _ _ => True) (boot "b" "a" 4) commitSchedule last ∧
        (committedHeights last.log == [2]) = true :=
    run_reaching (fun _ _ => true) (fun last : Replica => committedHeights last.log == [2])
      (fun _ _ _ => trivial) (by decide +kernel)
  exact ⟨last, run, eq_of_beq posted, commit_heights_nodup _ _ _ _ _ run⟩

end PbftBlock.CommitOncePerHeight
