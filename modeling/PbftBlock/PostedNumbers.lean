import PbftBlock.RejectedMessages
import PbftBlock.RequestNumbers

/-!
# The numbers a node gives to its own requests

`LastReqID` is raised to any number a Request names, before the Request has been
looked at, and to the number of an admitted PrePrepare, whose request may have
another one. `SendRequest` adds one modulo `2 ^ 64`. As long as the largest
number that raises it and the calls of `SendRequest` stay below `2 ^ 64` together,
and no PrePrepare stores a request with a larger number than its own, every number
given out is new and the largest so far.
-/

namespace PbftBlock.PostedNumbers

open PbftBlock.ConsensusMessages PbftBlock.ConsensusWorker PbftBlock.ConsensusBasics
open PbftBlock.ConsensusHandlers PbftBlock.HandlerActions PbftBlock.ActionChanges
open PbftBlock.NodeMachine PbftBlock.CommitOncePerHeight PbftBlock.PrepareDigests
open PbftBlock.RejectedMessages PbftBlock.RequestNumbers
open PbftBlock.Library.GuardedRuns

set_option autoImplicit false

section Calls

variable {worker : Worker}

theorem run_call_request {now : Instant} {call : Call} {digest : String} {request : Request}
    (present : (runCall now worker call).worker.reqStore.lookup digest = some request) :
    worker.reqStore.lookup digest = some request ∨ Stores worker call digest request := by
  refine chain_state_invariant
    (fun state => ∀ digest request, state.reqStore.lookup digest = some request →
      worker.reqStore.lookup digest = some request ∨ Stores worker call digest request)
    (fun _ _ => .inl) ?_ (run_call_performs now worker call) digest request present
  intro state _ next action prior digest request held
  rcases action_request action held with old | stores
  · exact prior digest request old
  · exact .inr stores

theorem recv_request_counter (now : Instant) (worker : Worker) (request : Request) :
    (recvRequest now worker request).worker.lastReqID =
      (raiseLastReqID worker request.reqID).lastReqID := by
  unfold recvRequest
  dsimp only
  split_ifs
  · rfl
  · rfl
  · rfl
  · rfl
  · cases request.realblock <;> rfl
  · rfl

theorem pool_pre_prepare_counter (now : Instant) (worker : Worker) (preprep : PrePrepare)
    (request : Request) (effects : List Effect) :
    (poolPrePrepare now worker preprep request effects).worker.lastReqID = worker.lastReqID := by
  have answered : ∀ state,
      (answerPrePrepare state preprep request effects).worker.lastReqID = state.lastReqID := by
    intro state
    unfold answerPrePrepare
    dsimp only
    split_ifs
    · rfl
    · rfl
  unfold poolPrePrepare
  cases getBlockFromPossibleValidBlock worker request.blockHeight request.blockHash with
  | some _ => exact answered worker
  | none =>
      cases request.realblock with
      | none => rfl
      | some block => exact answered (putPVBAndBeats now worker block)

theorem certify_pre_prepare_counter (now : Instant) {preprep : PrePrepare} (request : Request)
    (held : (worker.reqStore.lookup preprep.requestDigest).isSome = true) :
    (certifyPrePrepare now worker preprep request).worker.lastReqID = worker.lastReqID := by
  obtain ⟨certs, frame⟩ :=
    track_pre_prepare_frame (getCert worker preprep.view request.reqID) preprep request
  have counter : (trackPrePrepare (getCert worker preprep.view request.reqID) preprep
      request).1.lastReqID = worker.lastReqID := by
    rw [frame]
    rfl
  have store : (trackPrePrepare (getCert worker preprep.view request.reqID) preprep
      request).1.reqStore = worker.reqStore := by
    rw [frame]
    rfl
  unfold certifyPrePrepare
  dsimp only
  split_ifs
  · rfl
  · exact counter
  · rw [check_pre_prepare_digest_skipped now preprep request _ (by rw [store]; exact held),
      pool_pre_prepare_counter]
    exact counter

theorem recv_pre_prepare_counter {preprep : PrePrepare} {request : Request} (now : Instant)
    (admitted : Admits worker preprep request)
    (fresh : worker.reqStore.lookup preprep.requestDigest = none) :
    (recvPrePrepare now worker preprep).worker.lastReqID =
      (raiseLastReqID worker preprep.reqID).lastReqID := by
  have stored : admittedWorker worker preprep request =
      storeRequest (raiseLastReqID worker preprep.reqID) preprep.requestDigest request :=
    if_neg (by simp [fresh])
  rw [recv_pre_prepare_admitted now admitted]
  split_ifs
  · rw [stored]
    rfl
  · rw [certify_pre_prepare_counter now request (admitted_worker_held worker preprep request),
      stored]
    rfl

theorem le_raise (worker : Worker) (reqID : UInt64) :
    worker.lastReqID ≤ (raiseLastReqID worker reqID).lastReqID ∧
      reqID ≤ (raiseLastReqID worker reqID).lastReqID := by
  unfold raiseLastReqID
  dsimp only
  split_ifs with higher <;> grind

theorem raise_le {reqID : UInt64} {bound : Nat} (old : worker.lastReqID.toNat ≤ bound)
    (new : reqID.toNat ≤ bound) : (raiseLastReqID worker reqID).lastReqID.toNat ≤ bound := by
  unfold raiseLastReqID
  dsimp only
  split_ifs
  · exact new
  · exact old

end Calls

section Bounded

/-- The numbers that raise `LastReqID` stay within a limit, and a PrePrepare whose request
is stored brings none with a number above its own and above `LastReqID`. -/
structure NumbersBounded (limit : Nat) (worker : Worker) (call : Call) : Prop where
  request : ∀ request, call = .recvRequest request → worker.lastReqID < request.reqID →
    request.reqID.toNat ≤ limit
  prePrepare : ∀ preprep request, call = .recvPrePrepare preprep →
    Admits worker preprep request → worker.reqStore.lookup preprep.requestDigest = none →
    worker.lastReqID < preprep.reqID → preprep.reqID.toNat ≤ limit
  carried : ∀ preprep request, call = .recvPrePrepare preprep →
    Admits worker preprep request → worker.reqStore.lookup preprep.requestDigest = none →
    request.reqID ≤ preprep.reqID ∨ request.reqID ≤ worker.lastReqID

variable {worker : Worker} {call : Call} {limit bound : Nat}

theorem number_le {number : UInt64} (raising : worker.lastReqID < number → number.toNat ≤ limit)
    (within : limit ≤ bound) (prior : worker.lastReqID.toNat ≤ bound) : number.toNat ≤ bound := by
  by_cases raises : worker.lastReqID < number
  · exact Nat.le_trans (raising raises) within
  · exact Nat.le_trans (UInt64.le_iff_toNat_le.mp (UInt64.not_lt.mp raises)) prior

theorem received_counter (now : Instant) (bounded : NumbersBounded limit worker call)
    (received : ∀ raaaa, call ≠ .sendRequest raaaa) (within : limit ≤ bound)
    (prior : worker.lastReqID.toNat ≤ bound) :
    worker.lastReqID ≤ (runCall now worker call).worker.lastReqID ∧
      (runCall now worker call).worker.lastReqID.toNat ≤ bound := by
  refine chain_state_invariant
    (fun state => worker.lastReqID ≤ state.lastReqID ∧ state.lastReqID.toNat ≤ bound)
    ⟨UInt64.le_refl _, prior⟩ ?_ (run_call_performs now worker call)
  intro state _ next action held
  cases action with
  | advance raaaa _ => exact absurd rfl (received raaaa)
  | raiseForRequest request _ =>
      have number := number_le (bounded.request request rfl) within prior
      exact ⟨UInt64.le_trans held.1 (le_raise state request.reqID).1, raise_le held.2 number⟩
  | raiseForPrePrepare preprep request _ admitted fresh =>
      have number := number_le (bounded.prePrepare preprep request rfl admitted fresh) within prior
      exact ⟨UInt64.le_trans held.1 (le_raise state preprep.reqID).1, raise_le held.2 number⟩
  | checkpoint chkpt _ =>
      obtain ⟨_, _, _, _, _, frame⟩ := recv_checkpoint_frame state chkpt
      rw [frame]
      exact held
  | _ => exact held

/-- A request that gets stored has a number up to the new `LastReqID`. -/
theorem stored_number_below (now : Instant) {digest : String} {request : Request}
    (bounded : NumbersBounded limit worker call) (stores : Stores worker call digest request) :
    request.reqID ≤ (runCall now worker call).worker.lastReqID := by
  cases stores with
  | accepted _ tests =>
      have raised : (runCall now worker (.recvRequest request)).worker.lastReqID =
          (raiseLastReqID worker request.reqID).lastReqID := recv_request_counter now worker request
      rw [raised]
      exact (le_raise worker request.reqID).2
  | carried preprep _ tests fresh =>
      have raised : (runCall now worker (.recvPrePrepare preprep)).worker.lastReqID =
          (raiseLastReqID worker preprep.reqID).lastReqID :=
        recv_pre_prepare_counter now tests fresh
      rw [raised]
      rcases bounded.carried preprep request rfl tests fresh with own | known
      · exact UInt64.le_trans own (le_raise worker preprep.reqID).2
      · exact UInt64.le_trans known (le_raise worker preprep.reqID).1

end Bounded

section Runs

def submits : Event → Bool
  | .invoke _ (.sendRequest _) => true
  | _ => false

/-- After `calls` calls of `SendRequest`: nothing stored or posted has a number
above `LastReqID`. -/
structure NumbersBelow (limit calls : Nat) (replica : Replica) : Prop where
  counter : replica.worker.lastReqID.toNat ≤ limit + calls
  stored : ∀ digest request, replica.worker.reqStore.lookup digest = some request →
    request.reqID ≤ replica.worker.lastReqID
  posted : ∀ request sender, .post ⟨.request request, sender⟩ ∈ replica.log →
    request.reqID ≤ replica.worker.lastReqID
  owed : ∀ raaaa, .sendRequest raaaa ∉ replica.pending

theorem boot_numbers_below {limit : Nat} (positive : 1 ≤ limit) (nodeID leader : String)
    (peersnum : Int) : NumbersBelow limit 0 (boot nodeID leader peersnum) where
  counter := positive
  stored digest request held := by cases held
  posted request sender member := by simp [boot] at member
  owed raaaa member := by simp [boot] at member

theorem spawned_not_send_request {now : Instant} {worker : Worker} {call : Call} {raaaa : Raaaa} :
    .spawn (.sendRequest raaaa) ∉ (runCall now worker call).effects := by
  intro member
  obtain ⟨_, _, _, _, action, spawned, _⟩ :=
    chain_output (fun _ => True) trivial (fun _ _ _ _ _ => trivial)
      (run_call_performs now worker call) _ member
  rcases action_spawns action spawned with ⟨msg, _, carried, _⟩ | ⟨prep, _, same, _⟩
  · cases carried
  · cases same

theorem owed_after (now : Instant) (call : Call) {replica : Replica} {rest : List Call}
    (owed : ∀ raaaa, .sendRequest raaaa ∉ replica.pending)
    (kept : rest = replica.pending ∨ ∃ index, rest = replica.pending.eraseIdx index)
    (raaaa : Raaaa) : .sendRequest raaaa ∉ (perform now replica rest call).pending := by
  intro member
  have split : .sendRequest raaaa ∈
      rest ++ (runCall now replica.worker call).effects.filterMap spawnedCall := member
  rcases List.mem_append.mp split with old | new
  · rcases kept with rfl | ⟨index, rfl⟩
    · exact owed raaaa old
    · exact owed raaaa (List.mem_of_mem_eraseIdx old)
  · obtain ⟨effect, inside, spawned⟩ := List.mem_filterMap.mp new
    cases effect with
    | spawn started =>
        obtain rfl := Option.some.inj spawned
        exact spawned_not_send_request inside
    | _ => cases spawned

theorem send_request_store (worker : Worker) (raaaa : Raaaa) :
    (sendRequest worker raaaa).worker.reqStore = worker.reqStore := by
  unfold sendRequest
  cases raaaa.block with
  | none => rfl
  | some block =>
      dsimp only
      split_ifs <;> rfl

theorem lt_succ_of_room {number : UInt64} {bound : Nat} (below : number.toNat ≤ bound)
    (room : bound + 1 < 2 ^ 64) : number < number + 1 := by
  rw [UInt64.lt_iff_toNat_lt, UInt64.toNat_add]
  have one : (1 : UInt64).toNat = 1 := rfl
  rw [one]
  omega

theorem event_call_submits {replica : Replica} {event : Event} {call : Call}
    (owed : ∀ raaaa, .sendRequest raaaa ∉ replica.pending)
    (ran : eventCall replica event = some call) :
    submits event = true ∧ (∃ raaaa, call = .sendRequest raaaa) ∨
      submits event = false ∧ ∀ raaaa, call ≠ .sendRequest raaaa := by
  cases event with
  | invoke now invoked =>
      obtain rfl := Option.some.inj ran
      cases invoked with
      | sendRequest raaaa => exact .inl ⟨rfl, raaaa, rfl⟩
      | _ => exact .inr ⟨rfl, by simp⟩
  | resume now index =>
      refine .inr ⟨rfl, ?_⟩
      rintro raaaa rfl
      exact owed raaaa (List.mem_of_getElem? ran)

theorem step_numbers_below {limit calls : Nat} {replica after : Replica} {event : Event}
    (allowed : EachCall (NumbersBounded limit) replica event)
    (stepped : step replica event = some after)
    (room : limit + (calls + (if submits event then 1 else 0)) < 2 ^ 64)
    (prior : NumbersBelow limit calls replica) :
    NumbersBelow limit (calls + (if submits event then 1 else 0)) after ∧
      replica.worker.lastReqID ≤ after.worker.lastReqID := by
  obtain ⟨now, rest, call, ran, kept, rfl⟩ := step_performs stepped
  have bounded := allowed call ran
  have stillOwed := owed_after now call prior.owed kept
  rcases event_call_submits prior.owed ran with ⟨submitted, raaaa, rfl⟩ | ⟨quiet, received⟩
  · rw [submitted, if_pos rfl] at room ⊢
    have counter : (perform now replica rest (.sendRequest raaaa)).worker.lastReqID =
        replica.worker.lastReqID + 1 := send_request_counter replica.worker raaaa
    have store : (perform now replica rest (.sendRequest raaaa)).worker.reqStore =
        replica.worker.reqStore := send_request_store replica.worker raaaa
    have grows : replica.worker.lastReqID < replica.worker.lastReqID + 1 :=
      lt_succ_of_room prior.counter (by omega)
    refine ⟨⟨?_, ?_, ?_, stillOwed⟩, ?_⟩
    · rw [counter, UInt64.toNat_add]
      have one : (1 : UInt64).toNat = 1 := rfl
      have old := prior.counter
      rw [one]
      omega
    · intro digest request held
      rw [store] at held
      rw [counter]
      exact UInt64.le_trans (prior.stored digest request held) (UInt64.le_of_lt grows)
    · intro request sender member
      rw [counter]
      rcases List.mem_append.mp member with old | new
      · exact UInt64.le_trans (prior.posted request sender old) (UInt64.le_of_lt grows)
      · obtain ⟨block, _, rfl⟩ := send_request_posts new
        exact UInt64.le_refl _
    · rw [counter]
      exact UInt64.le_of_lt grows
  · rw [quiet] at room ⊢
    have moved := received_counter now bounded received (Nat.le_add_right limit calls)
      prior.counter
    refine ⟨⟨moved.2, ?_, ?_, stillOwed⟩, moved.1⟩
    · intro digest request held
      rcases run_call_request held with old | stores
      · exact UInt64.le_trans (prior.stored digest request old) moved.1
      · exact stored_number_below now bounded stores
    · intro request sender member
      rcases List.mem_append.mp member with old | new
      · exact UInt64.le_trans (prior.posted request sender old) moved.1
      · obtain ⟨_, _, _, _, action, posted, _⟩ :=
          chain_output (fun _ => True) trivial (fun _ _ _ _ _ => trivial)
            (run_call_performs now replica.worker call) _ new
        obtain ⟨raaaa, _, rfl, _⟩ := action_posts_request action posted
        exact absurd rfl (received raaaa)

theorem run_numbers_below {limit : Nat} (positive : 1 ≤ limit) {nodeID leader : String}
    {peersnum : Int} {events : List Event} {last : Replica}
    (run : Run step (EachCall (NumbersBounded limit)) (boot nodeID leader peersnum) events last)
    (few : limit + events.countP submits < 2 ^ 64) :
    NumbersBelow limit (events.countP submits) last := by
  induction run with
  | start => exact boot_numbers_below positive nodeID leader peersnum
  | next event prior guard stepped ih =>
      rw [List.countP_append, List.countP_singleton] at few ⊢
      exact (step_numbers_below guard stepped few (ih (by omega))).1

/-- The number of a request that is posted in the next step is larger than all
numbers posted before or stored at that time, and `LastReqID` does not wrap. -/
theorem posted_numbers_increase (nodeID leader : String) (peersnum : Int) (limit : Nat)
    (positive : 1 ≤ limit) (events : List Event) (event : Event) (last after : Replica)
    (run : Run step (EachCall (NumbersBounded limit)) (boot nodeID leader peersnum) events last)
    (allowed : EachCall (NumbersBounded limit) last event)
    (stepped : step last event = some after)
    (few : limit + (events ++ [event]).countP submits < 2 ^ 64) :
    last.worker.lastReqID ≤ after.worker.lastReqID ∧
      ∀ effects request sender, after.log = last.log ++ effects →
        .post ⟨.request request, sender⟩ ∈ effects →
        (∀ old oldSender, .post ⟨.request old, oldSender⟩ ∈ last.log →
          old.reqID < request.reqID) ∧
        ∀ digest stored, last.worker.reqStore.lookup digest = some stored →
          stored.reqID < request.reqID := by
  rw [List.countP_append, List.countP_singleton] at few
  have below := run_numbers_below positive run (by omega)
  refine ⟨(step_numbers_below allowed stepped few below).2, ?_⟩
  intro effects request sender grown posted
  obtain ⟨now, rest, call, ran, _, rfl⟩ := step_performs stepped
  obtain rfl : (runCall now last.worker call).effects = effects := List.append_cancel_left grown
  obtain ⟨_, _, _, _, action, issued, _⟩ :=
    chain_output (fun _ => True) trivial (fun _ _ _ _ _ => trivial)
      (run_call_performs now last.worker call) _ posted
  obtain ⟨raaaa, _, rfl, _⟩ := action_posts_request action issued
  obtain ⟨block, _, rfl⟩ := send_request_posts posted
  have submitted : submits event = true := by
    rcases event_call_submits below.owed ran with ⟨submitted, _⟩ | ⟨_, received⟩
    · exact submitted
    · exact absurd rfl (received raaaa)
  rw [submitted, if_pos rfl] at few
  have grows : last.worker.lastReqID < last.worker.lastReqID + 1 :=
    lt_succ_of_room below.counter (by omega)
  constructor
  · intro old oldSender member
    exact UInt64.lt_of_le_of_lt (below.posted old oldSender member) grows
  · intro digest stored held
    exact UInt64.lt_of_le_of_lt (below.stored digest stored held) grows

def boundsNumbers (limit : Nat) (replica : Replica) (event : Event) : Bool :=
  match eventCall replica event with
  | some (.recvRequest request) => decide (request.reqID.toNat ≤ limit)
  | some (.recvPrePrepare preprep) =>
      decide (preprep.reqID.toNat ≤ limit) &&
        preprep.request.all fun request => decide (request.reqID ≤ preprep.reqID)
  | _ => true

theorem each_call_bounds_numbers (limit : Nat) (replica : Replica) (event : Event)
    (passed : boundsNumbers limit replica event = true) :
    EachCall (NumbersBounded limit) replica event := by
  intro call ran
  constructor
  · intro request called _
    subst called
    simpa [boundsNumbers, ran] using passed
  · intro preprep request called tests _ _
    subst called
    have both : preprep.reqID.toNat ≤ limit ∧ request.reqID ≤ preprep.reqID := by
      simpa [boundsNumbers, ran, tests.carried] using passed
    exact both.1
  · intro preprep request called tests _
    subst called
    have both : preprep.reqID.toNat ≤ limit ∧ request.reqID ≤ preprep.reqID := by
      simpa [boundsNumbers, ran, tests.carried] using passed
    exact .inl both.2

def submission (now : Instant) : Event := .invoke now (.sendRequest ⟨some (plainBlock 2 0), []⟩)

/-- A request of the node's own, a stranger's Request that is turned away, and a
proposal that is not. -/
def numberSchedule : List Event :=
  [submission 0,
    .invoke 1 (.recvRequest (leaderRequest "c" 7 (plainBlock 2 0))),
    .invoke 2 (.recvPrePrepare
      (prePrepareFor "a" 9 "9" (leaderRequest "a" 9 (plainBlock 2 0))))]

theorem posted_numbers_increase_on_schedule :
    ∃ last after, Run step (EachCall (NumbersBounded 9)) (boot "a" "a" 4) numberSchedule last ∧
      step last (submission 3) = some after ∧ after.worker.lastReqID = 10 ∧
      last.worker.lastReqID ≤ after.worker.lastReqID ∧
      ∀ effects request sender, after.log = last.log ++ effects →
        .post ⟨.request request, sender⟩ ∈ effects →
        (∀ old oldSender, .post ⟨.request old, oldSender⟩ ∈ last.log →
          old.reqID < request.reqID) ∧
        ∀ digest stored, last.worker.reqStore.lookup digest = some stored →
          stored.reqID < request.reqID := by
  obtain ⟨last, run, next⟩ : ∃ last,
      Run step (EachCall (NumbersBounded 9)) (boot "a" "a" 4) numberSchedule last ∧
        ((step last (submission 3)).any fun after => after.worker.lastReqID == 10) = true :=
    run_reaching (boundsNumbers 9)
      (fun last : Replica =>
        (step last (submission 3)).any fun after => after.worker.lastReqID == 10)
      (each_call_bounds_numbers 9) (by decide +kernel)
  rw [Option.any_eq_true] at next
  obtain ⟨after, stepped, number⟩ := next
  refine ⟨last, after, run, stepped, eq_of_beq number, ?_⟩
  exact posted_numbers_increase "a" "a" 4 9 (by decide) numberSchedule (submission 3) last after run
    (each_call_bounds_numbers 9 last _ rfl) stepped (by decide)

def issuedNumbers (log : List Effect) : List UInt64 :=
  log.filterMap fun effect =>
    match effect with
    | .post ⟨.request request, _⟩ => some request.reqID
    | _ => none

/-- A stranger's Request with the largest number is rejected, and the next own
request gets number 0; a proposal with number 3 carries request 100, and the
next own request gets number 4. -/
theorem posted_numbers_fall_behind :
    (∃ last, Run step (fun _ _ => True) (boot "b" "a" 4)
        [submission 0,
          .invoke 1 (.recvRequest (leaderRequest "c" 18446744073709551615 (plainBlock 2 0))),
          submission 2] last ∧
      issuedNumbers last.log = [2, 0]) ∧
    ∃ last, Run step (fun _ _ => True) (boot "b" "a" 4)
        [.invoke 0 (.recvPrePrepare
            (prePrepareFor "a" 3 "100" (leaderRequest "a" 100 (plainBlock 2 0)))),
          submission 1] last ∧
      last.worker.reqStore.lookup "100" = some (leaderRequest "a" 100 (plainBlock 2 0)) ∧
      issuedNumbers last.log = [4] := by
  constructor
  · obtain ⟨last, run, numbers⟩ : ∃ last, Run step (fun _ _ => True) (boot "b" "a" 4)
        [submission 0,
          .invoke 1 (.recvRequest (leaderRequest "c" 18446744073709551615 (plainBlock 2 0))),
          submission 2] last ∧ (issuedNumbers last.log == [2, 0]) = true :=
      run_reaching (fun _ _ => true) (fun last : Replica => issuedNumbers last.log == [2, 0])
        (fun _ _ _ => trivial) (by decide +kernel)
    exact ⟨last, run, eq_of_beq numbers⟩
  · obtain ⟨last, run, found⟩ : ∃ last, Run step (fun _ _ => True) (boot "b" "a" 4)
        [.invoke 0 (.recvPrePrepare
            (prePrepareFor "a" 3 "100" (leaderRequest "a" 100 (plainBlock 2 0)))),
          submission 1] last ∧
          decide (last.worker.reqStore.lookup "100" =
              some (leaderRequest "a" 100 (plainBlock 2 0)) ∧
            issuedNumbers last.log = [4]) = true :=
      run_reaching (fun _ _ => true)
        (fun last : Replica => decide (last.worker.reqStore.lookup "100" =
            some (leaderRequest "a" 100 (plainBlock 2 0)) ∧
          issuedNumbers last.log = [4]))
        (fun _ _ _ => trivial) (by decide +kernel)
    obtain ⟨stored, numbers⟩ := of_decide_eq_true found
    exact ⟨last, run, stored, numbers⟩

end Runs

end PbftBlock.PostedNumbers
