import PbftBlock.CorrectCluster

/-!
# The head and the decided heights

`RecvCommit` raises the head by one for every positive certificate above it, so
a node that has missed a decision gives the next block the wrong height. The
call of `JudgeSync` that would have kept it from handling that Commit is
commented out. Where the test holds for the Commit that completes a certificate,
the head moves to the height decided.
-/

namespace PbftBlock.ChainHead

open PbftBlock.ConsensusMessages PbftBlock.ConsensusWorker PbftBlock.ConsensusBasics
open PbftBlock.ConsensusHandlers PbftBlock.HandlerActions PbftBlock.ActionChanges
open PbftBlock.NodeMachine PbftBlock.NodeContents PbftBlock.ConsensusNetwork
open PbftBlock.NetworkContents PbftBlock.CommitOncePerHeight PbftBlock.Agreement
open PbftBlock.RequestNumbers PbftBlock.CorrectCluster
open PbftBlock.Library.GuardedRuns

set_option autoImplicit false

section OneCall

variable {now : Instant} {first before after worker : Worker} {call : Call}
  {effects : List Effect}

theorem action_head (action : Action now first call before effects after) :
    after.currentBlock = before.currentBlock ∨ ∃ decision, .insertChain decision ∈ effects := by
  cases action with
  | decidePositive commit request _ _ _ _ _ _ => exact .inr ⟨_, List.mem_cons_self⟩
  | checkpoint chkpt _ =>
      obtain ⟨_, _, _, _, _, frame⟩ := recv_checkpoint_frame before chkpt
      rw [frame]
      exact .inl rfl
  | _ => exact .inl rfl

theorem run_call_head (now : Instant) (worker : Worker) (call : Call) :
    (runCall now worker call).worker.currentBlock = worker.currentBlock ∨
      ∃ decision, .insertChain decision ∈ (runCall now worker call).effects ∧
        call = .recvCommit decision.commit ∧ Completes worker decision.commit ∧
        (runCall now worker call).worker.currentBlock = worker.currentBlock + 1 := by
  refine chain_invariant (fun _ => True)
    (fun emitted state => state.currentBlock = worker.currentBlock ∨
      ∃ decision, .insertChain decision ∈ emitted ∧ call = .recvCommit decision.commit ∧
        Completes worker decision.commit ∧ state.currentBlock = worker.currentBlock + 1)
    (.inl rfl) ?_ (run_call_performs now worker call) (fun _ _ => trivial)
  intro emitted state more next action _ prior
  rcases action_head action with kept | ⟨decision, inserted⟩
  · rw [kept]
    rcases prior with same | ⟨decision, inside, rest⟩
    · exact .inl same
    · exact .inr ⟨decision, List.mem_append_left _ inside, rest⟩
  · -- the state at the decision is `worker` with one more Commit
    obtain ⟨called, added, _, _, _, _, _, raised⟩ := action_inserts action inserted
    rw [added] at raised
    exact .inr ⟨decision, List.mem_append_right _ inserted, called,
      action_completes action inserted, raised⟩

theorem height_of_judge_sync {height : UInt64} (above : worker.currentBlock < height)
    (synced : judgeSync worker height = true) : height = worker.currentBlock + 1 := by
  unfold judgeSync at synced
  grind

end OneCall

section Submissions

def Rising (net : Network) (event : NetEvent) : Prop :=
  ∀ now raaaa, event = .submit now raaaa → ∃ block, raaaa.block = some block ∧ 1 < block.number ∧
    ∀ earlier ∈ net.submitted, ∀ old, earlier.block = some old → old.number < block.number

structure RisingHistory (submitted : List Raaaa) (blocks : List Block) : Prop where
  given : submitted.map Raaaa.block = blocks.map some
  distinct : (blocks.map Block.number).Nodup
  above : ∀ block ∈ blocks, 1 < block.number

theorem rising_history_append {submitted : List Raaaa} {blocks : List Block} {raaaa : Raaaa}
    {block : Block} (history : RisingHistory submitted blocks) (given : raaaa.block = some block)
    (above : 1 < block.number)
    (higher : ∀ earlier ∈ submitted, ∀ old, earlier.block = some old → old.number < block.number) :
    RisingHistory (submitted ++ [raaaa]) (blocks ++ [block]) where
  given := by simp [history.given, given]
  distinct := by
    rw [List.map_append, List.map_singleton, ← List.concat_eq_append]
    apply history.distinct.concat
    intro repeated
    obtain ⟨old, member, same⟩ := List.mem_map.mp repeated
    have inside : some old ∈ submitted.map Raaaa.block := by
      rw [history.given]
      exact List.mem_map_of_mem member
    obtain ⟨earlier, earlierMember, earlierGiven⟩ := List.mem_map.mp inside
    have lower := higher earlier earlierMember old earlierGiven
    rw [same] at lower
    exact absurd lower (UInt64.lt_irrefl _)
  above := by
    intro other member
    rcases List.mem_append.mp member with inside | last
    · exact history.above other inside
    · rw [List.mem_singleton.mp last]
      exact above

/-- There are not enough heights for the request numbers to wrap around. -/
theorem rising_history_length {submitted : List Raaaa} {blocks : List Block}
    (history : RisingHistory submitted blocks) : submitted.length < 2 ^ 64 := by
  have length : submitted.length = (blocks.map fun block => block.number.toNat).length := by
    simpa using congrArg List.length history.given
  have distinct : (blocks.map fun block => block.number.toNat).Nodup := by
    have mapped := history.distinct.map fun left right same => UInt64.toNat_inj.mp same
    rwa [List.map_map] at mapped
  have range : (blocks.map fun block => block.number.toNat).toFinset ⊆ Finset.Ico 2 (2 ^ 64) := by
    intro height member
    obtain ⟨block, inside, rfl⟩ := List.mem_map.mp (List.mem_toFinset.mp member)
    have low := UInt64.lt_iff_toNat_lt.mp (history.above block inside)
    exact Finset.mem_Ico.mpr ⟨low, block.number.toNat_lt⟩
  have bound := Finset.card_le_card range
  rw [List.toFinset_card_of_nodup distinct, ← length, Nat.card_Ico] at bound
  omega

end Submissions

/-- `JudgeSync` passes for the height of a Commit that completes a certificate. -/
def InSync (worker : Worker) (call : Call) : Prop :=
  ∀ commit, call = .recvCommit commit → Completes worker commit →
    judgeSync worker commit.vr.blockHeight = true

structure HeadGuard (cluster : Cluster) (net : Network) (event : NetEvent) : Prop where
  genuine : Genuine event
  rising : Rising net event
  synced : EachCallAt cluster (fun _ worker call => InSync worker call) net event

section Runs

variable {cluster : Cluster} {allowed : Network → NetEvent → Prop} {net after : Network}
  {event : NetEvent} {events : List NetEvent}

theorem run_rising_history (rises : ∀ state event, allowed state event → Rising state event)
    (run : Run (netStep cluster) allowed (startNetwork cluster) events net) :
    ∃ blocks, RisingHistory net.submitted blocks := by
  refine run_invariant (fun state => ∃ blocks, RisingHistory state.submitted blocks) ?_ run
    ⟨[], rfl, List.nodup_nil, by simp⟩
  intro state event next guard stepped ⟨blocks, history⟩
  cases step_moves stepped with
  | ran now id rest call flight source member alive owed travelling kept =>
      cases event with
      | submit time raaaa =>
          obtain ⟨block, given, above, higher⟩ := rises _ _ guard time raaaa rfl
          exact ⟨_, rising_history_append history given above higher⟩
      | _ => exact ⟨blocks, history⟩
  | idle flight travelling kept => exact ⟨blocks, history⟩
  | injected envelope put => exact ⟨blocks, history⟩

/-- Among correct nodes the Commit that completes a certificate has the height
of the request decided. -/
theorem decision_height (closed : Closed allowed)
    (run : Run (netStep cluster) allowed (startNetwork cluster) events net)
    (few : net.submitted.length < 2 ^ 64) {id : String} (member : id ∈ membersOf cluster)
    {decision : Decision} (decided : .insertChain decision ∈ (net.replicas id).log) :
    decision.commit.vr.blockHeight = decision.request.blockHeight := by
  obtain ⟨book, explained⟩ := run_explained_by_book closed run few
  have backed : Backed _ _ decision := explained id member _ decided
  obtain ⟨peer, posted⟩ := backed.commit.resolve_left (Finset.notMem_empty _)
  have height := (posted_commit_height (explained _ peer _ posted)).2.2.1
  rw [height, (decision_request backed).2]

theorem step_head (stepped : netStep cluster net event = some after) (id : String) :
    (after.replicas id).worker.currentBlock = (net.replicas id).worker.currentBlock ∨
      ∃ decision effects, (after.replicas id).log = (net.replicas id).log ++ effects ∧
        .insertChain decision ∈ effects ∧
        Source cluster net event id (.recvCommit decision.commit) ∧
        Completes (net.replicas id).worker decision.commit ∧
        (after.replicas id).worker.currentBlock = (net.replicas id).worker.currentBlock + 1 := by
  cases step_moves stepped with
  | ran now node rest call flight source member alive owed travelling kept =>
      by_cases same : id = node
      · subst same
        simp only [Function.update_self]
        rcases run_call_head now (net.replicas id).worker call with
          kept | ⟨decision, inserted, rfl, completes, raised⟩
        · exact .inl kept
        · exact .inr ⟨decision, _, rfl, inserted, source, completes, raised⟩
      · left
        simp only [Function.update_of_ne same]
  | idle flight travelling kept => exact .inl rfl
  | injected envelope put => exact .inl rfl

theorem guarded_step_head
    (run : Run (netStep cluster) (HeadGuard cluster) (startNetwork cluster) events net)
    (guard : HeadGuard cluster net event) (stepped : netStep cluster net event = some after)
    {id : String} (member : id ∈ membersOf cluster) :
    (after.replicas id).worker.currentBlock = (net.replicas id).worker.currentBlock ∨
      ∃ decision effects, (after.replicas id).log = (net.replicas id).log ++ effects ∧
        .insertChain decision ∈ effects ∧
        decision.request.blockHeight = (after.replicas id).worker.currentBlock ∧
        (after.replicas id).worker.currentBlock = (net.replicas id).worker.currentBlock + 1 := by
  have closed : Closed (HeadGuard cluster) := fun _ envelope guarded => guarded.genuine envelope rfl
  have further := Run.next event run guard stepped
  obtain ⟨blocks, history⟩ := run_rising_history (fun _ _ guarded => guarded.rising) further
  rcases step_head stepped id with
    kept | ⟨decision, effects, grown, inserted, source, completes, raised⟩
  · exact .inl kept
  · right
    refine ⟨decision, effects, grown, inserted, ?_, raised⟩
    have decided : .insertChain decision ∈ (after.replicas id).log := by
      rw [grown]
      exact List.mem_append_right _ inserted
    have height := height_of_judge_sync completes.above (guard.synced id _ source _ rfl completes)
    rw [← decision_height closed further (rising_history_length history) member decided, height,
      raised]

theorem run_heights_decided
    (run : Run (netStep cluster) (HeadGuard cluster) (startNetwork cluster) events net)
    {id : String} (member : id ∈ membersOf cluster) (height : UInt64) (low : 1 < height)
    (reached : height ≤ (net.replicas id).worker.currentBlock) :
    ∃ decision, .insertChain decision ∈ (net.replicas id).log ∧
      decision.request.blockHeight = height := by
  induction run with
  | start =>
      have initial : height ≤ 1 := reached
      exact absurd low (UInt64.not_lt.mpr initial)
  | next event prior guard stepped ih =>
      rcases guarded_step_head prior guard stepped member with
        kept | ⟨decision, effects, grown, inserted, decidedHeight, raised⟩
      · rw [kept] at reached
        obtain ⟨decision, inside, same⟩ := ih reached
        exact ⟨decision, step_log_grows stepped id _ inside, same⟩
      · by_cases newest : height = decision.request.blockHeight
        · refine ⟨decision, ?_, newest.symm⟩
          rw [grown]
          exact List.mem_append_right _ inserted
        · rw [decidedHeight] at newest
          obtain ⟨earlier, inside, same⟩ := ih (by grind)
          exact ⟨earlier, step_log_grows stepped id _ inside, same⟩

end Runs

/-- When `JudgeSync` lets the Commits pass that complete a certificate, every
step that raises the head of a node raises it to the height of the request the
node decides in that step, and all heights up to the head have been decided. -/
theorem head_moves_to_decided_height (cluster : Cluster) (events : List NetEvent) (net : Network)
    (run : Run (netStep cluster) (HeadGuard cluster) (startNetwork cluster) events net)
    (id : String) (member : id ∈ membersOf cluster) :
    (∀ event after, HeadGuard cluster net event → netStep cluster net event = some after →
      (after.replicas id).worker.currentBlock ≠ (net.replicas id).worker.currentBlock →
      ∃ decision effects, (after.replicas id).log = (net.replicas id).log ++ effects ∧
        .insertChain decision ∈ effects ∧
        decision.request.blockHeight = (after.replicas id).worker.currentBlock) ∧
      ∀ height, 1 < height → height ≤ (net.replicas id).worker.currentBlock →
        ∃ decision, .insertChain decision ∈ (net.replicas id).log ∧
          decision.request.blockHeight = height := by
  constructor
  · intro event after guard stepped moved
    rcases guarded_step_head run guard stepped member with
      kept | ⟨decision, effects, grown, inserted, height, _⟩
    · exact absurd kept moved
    · exact ⟨decision, effects, grown, inserted, height⟩
  · intro height low reached
    exact run_heights_decided run member height low reached

section TwoNodes

def isRising (net : Network) : NetEvent → Bool
  | .submit _ raaaa => raaaa.block.any fun block =>
      decide (1 < block.number) && net.submitted.all fun earlier =>
        earlier.block.all fun old => decide (old.number < block.number)
  | _ => true

theorem rising_of_test {net : Network} {event : NetEvent} (passed : isRising net event = true) :
    Rising net event := by
  intro now raaaa same
  subst same
  simp only [isRising, Option.any_eq_true, Bool.and_eq_true, decide_eq_true_eq,
    List.all_eq_true, Option.all_eq_true] at passed
  obtain ⟨block, given, above, higher⟩ := passed
  exact ⟨block, given, above, fun earlier member old known => higher earlier member old known⟩

def isInSync (worker : Worker) : Call → Bool
  | .recvCommit commit => judgeSync worker commit.vr.blockHeight
  | _ => true

theorem in_sync_of_test {worker : Worker} {call : Call} (passed : isInSync worker call = true) :
    InSync worker call := by
  intro commit same _
  subst same
  exact passed

def headGuardTest (net : Network) (event : NetEvent) : Bool :=
  isGenuine event && isRising net event &&
    checksCalls pairCluster (fun _ worker call => isInSync worker call) net event

theorem head_guard_of_test (net : Network) (event : NetEvent)
    (passed : headGuardTest net event = true) : HeadGuard pairCluster net event := by
  simp only [headGuardTest, Bool.and_eq_true] at passed
  exact ⟨genuine_of_test passed.1.1, rising_of_test passed.1.2,
    each_call_of_checks (fun _ _ _ => in_sync_of_test) passed.2⟩

theorem head_moves_to_decided_height_on_pair_round :
    ∃ last, Run (netStep pairCluster) (HeadGuard pairCluster) (startNetwork pairCluster)
        pairRound last ∧
      (last.replicas secondNode).worker.currentBlock = 2 ∧
      ∃ decision, .insertChain decision ∈ (last.replicas secondNode).log ∧
        decision.request.blockHeight = 2 := by
  obtain ⟨last, run, head⟩ : ∃ last,
      Run (netStep pairCluster) (HeadGuard pairCluster) (startNetwork pairCluster)
        pairRound last ∧
      ((last.replicas secondNode).worker.currentBlock == 2) = true :=
    run_reaching headGuardTest
      (fun last : Network => (last.replicas secondNode).worker.currentBlock == 2)
      head_guard_of_test (by decide +kernel)
  have reached := eq_of_beq head
  have decided := (head_moves_to_decided_height pairCluster pairRound last run secondNode
    (by decide)).2 2 (by decide) (by rw [reached]; decide)
  exact ⟨last, run, reached, decided⟩

/-- The Commit of the first node for height 2 never reaches the second one,
which goes on to decide height 3 with its head at 1. -/
def missedDecision : List NetEvent :=
  [.submit 0 ⟨some (plainBlock 2 0), []⟩, .resume 1 firstNode 0, .resume 2 firstNode 0,
    .resume 3 firstNode 0, .deliver 4 0, .resume 5 secondNode 0, .resume 6 secondNode 0,
    .deliver 7 0, .deliver 8 0, .resume 9 secondNode 0, .deliver 10 0, .deliver 11 0,
    .resume 12 firstNode 0, .deliver 13 0, .deliver 14 0, .deliver 15 1, .deliver 16 1,
    .deliver 17 1, .submit 18 ⟨some (plainBlock 3 0), []⟩, .resume 19 firstNode 0,
    .resume 20 firstNode 0, .resume 21 firstNode 0, .deliver 22 1, .resume 23 secondNode 0,
    .resume 24 secondNode 0, .deliver 25 1, .deliver 26 1, .resume 27 secondNode 0, .deliver 28 1,
    .deliver 29 1, .resume 30 firstNode 0, .deliver 31 1, .deliver 32 1, .deliver 33 1]

theorem head_moves_to_undecided_height :
    ∃ last, Run (netStep pairCluster) (fun net event => Genuine event ∧ Rising net event)
        (startNetwork pairCluster) missedDecision last ∧
      (last.replicas secondNode).worker.currentBlock = 2 ∧
      (decisionsOf (last.replicas secondNode).log).map (fun d => d.request.blockHeight) = [3] := by
  obtain ⟨last, run, passed⟩ : ∃ last,
      Run (netStep pairCluster) (fun net event => Genuine event ∧ Rising net event)
        (startNetwork pairCluster) missedDecision last ∧
      ((last.replicas secondNode).worker.currentBlock == 2 &&
        (decisionsOf (last.replicas secondNode).log).map (fun d => d.request.blockHeight) ==
          [3]) = true :=
    run_reaching (fun net event => isGenuine event && isRising net event)
      (fun last : Network => (last.replicas secondNode).worker.currentBlock == 2 &&
        (decisionsOf (last.replicas secondNode).log).map (fun d => d.request.blockHeight) == [3])
      (fun _ _ passed => by
        rw [Bool.and_eq_true] at passed
        exact ⟨genuine_of_test passed.1, rising_of_test passed.2⟩)
      (by decide +kernel)
  rw [Bool.and_eq_true, beq_iff_eq, beq_iff_eq] at passed
  exact ⟨last, run, passed.1, passed.2⟩

end TwoNodes

end PbftBlock.ChainHead
