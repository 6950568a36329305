import PbftBlock.IssuedRequests

/-!
# The numbers of requests among correct nodes

When all nodes run the code, the `LastReqID` of the leader counts the calls of
`SendRequest`: messages that come back to the leader name numbers it has given
out, so they never raise it. Until the counter wraps around, a number belongs
to one request.
-/

namespace PbftBlock.RequestNumbers

open PbftBlock.ConsensusMessages PbftBlock.ConsensusWorker PbftBlock.ConsensusHandlers
open PbftBlock.HandlerActions PbftBlock.ActionChanges PbftBlock.NodeMachine
open PbftBlock.NodeContents PbftBlock.ConsensusNetwork PbftBlock.NetworkContents
open PbftBlock.Agreement PbftBlock.IssuedRequests
open PbftBlock.Library.GuardedRuns

set_option autoImplicit false

def recordOf (net : Network) (id : String) : List Effect := (net.replicas id).log

/-- Nothing enters the links but what the nodes send. -/
def Closed (allowed : Network → NetEvent → Prop) : Prop :=
  ∀ net envelope, ¬allowed net (.inject envelope)

variable {cluster : Cluster} {allowed : Network → NetEvent → Prop} {net after : Network}
  {event : NetEvent}

theorem run_correct_lawful (closed : Closed allowed) {events : List NetEvent}
    (run : Run (netStep cluster) allowed (startNetwork cluster) events net) :
    NetLawful cluster ∅ (proposalWire cluster ∅ (recordOf net))
      (issuedLaw cluster ∅ (recordOf net)) net := by
  have governs : Governs cluster ∅ allowed (recordOf net) (proposalWire cluster ∅ (recordOf net))
      (issuedLaw cluster ∅ (recordOf net)) :=
    issued_governs (Finset.notMem_empty _) (fun _ _ _ _ _ _ => Finset.notMem_empty _)
      (fun state envelope _ _ put => absurd put (closed state envelope))
  exact run_net_lawful governs run (fun _ _ _ member => member)

section Counter

variable {now : Instant} {worker : Worker} {call : Call}

/-- The numbers to which a received message may raise `LastReqID`. -/
inductive Raises (worker : Worker) : Call → UInt64 → Prop where
  | request (request : Request) : Raises worker (.recvRequest request) request.reqID
  | prePrepare (preprep : PrePrepare) (request : Request)
      (admitted : Admits worker preprep request) :
      Raises worker (.recvPrePrepare preprep) preprep.reqID

theorem raise_last_req_id_of_le {reqID : UInt64} (known : reqID ≤ worker.lastReqID) :
    (raiseLastReqID worker reqID).lastReqID = worker.lastReqID := by
  unfold raiseLastReqID
  dsimp only
  rw [if_neg (UInt64.not_lt.mpr known)]

theorem action_counter_kept {before next : Worker} {effects : List Effect}
    (action : Action now worker call before effects next)
    (received : ∀ raaaa, call ≠ .sendRequest raaaa)
    (known : ∀ reqID, Raises worker call reqID → reqID ≤ before.lastReqID) :
    next.lastReqID = before.lastReqID := by
  cases action with
  | advance raaaa _ => exact absurd rfl (received raaaa)
  | raiseForRequest request _ => exact raise_last_req_id_of_le (known _ (.request request))
  | raiseForPrePrepare preprep request _ admitted _ =>
      exact raise_last_req_id_of_le (known _ (.prePrepare preprep request admitted))
  | checkpoint chkpt _ =>
      obtain ⟨_, _, _, _, _, frame⟩ := recv_checkpoint_frame before chkpt
      rw [frame]
  | _ => rfl

theorem run_call_counter_kept (now : Instant) (received : ∀ raaaa, call ≠ .sendRequest raaaa)
    (known : ∀ reqID, Raises worker call reqID → reqID ≤ worker.lastReqID) :
    (runCall now worker call).worker.lastReqID = worker.lastReqID := by
  apply chain_state_invariant (fun state => state.lastReqID = worker.lastReqID) rfl ?_
    (run_call_performs now worker call)
  intro before effects next action prior
  rw [← prior] at known ⊢
  exact action_counter_kept action received known

theorem send_request_counter (worker : Worker) (raaaa : Raaaa) :
    (sendRequest worker raaaa).worker.lastReqID = worker.lastReqID + 1 := by
  unfold sendRequest
  cases raaaa.block with
  | none => rfl
  | some block =>
      dsimp only
      split_ifs <;> rfl

theorem send_request_posts {raaaa : Raaaa} {request : Request} {sender : String}
    (posted : .post ⟨.request request, sender⟩ ∈ (sendRequest worker raaaa).effects) :
    ∃ block, raaaa.block = some block ∧ request =
      issuedRequest { worker with lastReqID := worker.lastReqID + 1 } block raaaa.blockbyte := by
  unfold sendRequest at posted
  cases given : raaaa.block with
  | none => simp [given, crashed] at posted
  | some block =>
      simp only [given] at posted
      split_ifs at posted with low
      · simp [done] at posted
      · simp only [done, List.mem_cons, reduceCtorEq, Effect.post.injEq, ConsensusMsg.mk.injEq,
          Message.request.injEq, List.not_mem_nil, or_false, false_or] at posted
        exact ⟨block, rfl, posted.1⟩

end Counter

section Numbers

/-- The numbers given out so far are those of the calls of `SendRequest`, the
first call having number 2. -/
structure Numbered (cluster : Cluster) (net : Network) : Prop where
  counter : net.submitted.length + 1 < 2 ^ 64 →
    (net.replicas (leaderOf cluster)).worker.lastReqID = UInt64.ofNat (net.submitted.length + 1)
  numbers : net.submitted.length < 2 ^ 64 → ∀ request, Issued cluster (recordOf net) request →
    ∃ place, 1 ≤ place ∧ place ≤ net.submitted.length ∧ request.reqID = UInt64.ofNat (place + 1)
  unique : net.submitted.length < 2 ^ 64 → ∀ left right, Issued cluster (recordOf net) left →
    Issued cluster (recordOf net) right → left.reqID = right.reqID → left = right

theorem start_numbered (cluster : Cluster) : Numbered cluster (startNetwork cluster) where
  counter _ := rfl
  numbers _ request issued := by
    simp [Issued, recordOf, startNetwork, bootOf, boot] at issued
  unique _ left _ issued := by
    simp [Issued, recordOf, startNetwork, bootOf, boot] at issued

theorem numbered_of_same (numbered : Numbered cluster net)
    (sameCounter : net.submitted.length + 1 < 2 ^ 64 →
      (after.replicas (leaderOf cluster)).worker.lastReqID =
        (net.replicas (leaderOf cluster)).worker.lastReqID)
    (sameIssued : ∀ request, Issued cluster (recordOf after) request →
      Issued cluster (recordOf net) request)
    (sameHistory : after.submitted = net.submitted) : Numbered cluster after := by
  constructor
  · rw [sameHistory]
    intro small
    rw [sameCounter small]
    exact numbered.counter small
  · rw [sameHistory]
    intro small request issued
    exact numbered.numbers small request (sameIssued request issued)
  · rw [sameHistory]
    intro small left right leftIssued rightIssued same
    exact numbered.unique small left right (sameIssued left leftIssued)
      (sameIssued right rightIssued) same

theorem place_number_injective {left right : Nat} (leftBound : left + 1 < 2 ^ 64)
    (rightBound : right < 2 ^ 64) (positive : 1 ≤ left)
    (same : UInt64.ofNat (left + 1) = UInt64.ofNat (right + 1)) : left = right := by
  have values := congrArg UInt64.toNat same
  simp only [UInt64.toNat_ofNat'] at values
  omega

theorem numbered_of_submit (numbered : Numbered cluster net) {raaaa : Raaaa}
    (counter : (after.replicas (leaderOf cluster)).worker.lastReqID =
      (net.replicas (leaderOf cluster)).worker.lastReqID + 1)
    (issuedNow : ∀ request, Issued cluster (recordOf after) request →
      Issued cluster (recordOf net) request ∨
        ∃ block, raaaa.block = some block ∧ request = issuedRequest
          { (net.replicas (leaderOf cluster)).worker with
            lastReqID := (net.replicas (leaderOf cluster)).worker.lastReqID + 1 }
          block raaaa.blockbyte)
    (history : after.submitted = net.submitted ++ [raaaa]) : Numbered cluster after := by
  have length : after.submitted.length = net.submitted.length + 1 := by
    rw [history, List.length_append, List.length_singleton]
  have next : net.submitted.length + 1 < 2 ^ 64 →
      (net.replicas (leaderOf cluster)).worker.lastReqID + 1 =
        UInt64.ofNat (net.submitted.length + 1 + 1) := by
    intro small
    rw [numbered.counter small, UInt64.ofNat_add (net.submitted.length + 1) 1]
    rfl
  have fresh : net.submitted.length + 1 < 2 ^ 64 → ∀ old,
      Issued cluster (recordOf net) old →
      old.reqID ≠ (net.replicas (leaderOf cluster)).worker.lastReqID + 1 := by
    intro small old issued same
    obtain ⟨place, positive, bound, number⟩ := numbered.numbers (by omega) old issued
    rw [number, next small] at same
    have clash := place_number_injective (by omega) small positive same
    omega
  constructor
  · rw [length]
    intro small
    rw [counter, next (by omega)]
  · rw [length]
    intro small request issued
    rcases issuedNow request issued with old | ⟨block, _, rfl⟩
    · obtain ⟨place, positive, bound, number⟩ := numbered.numbers (by omega) request old
      exact ⟨place, positive, by omega, number⟩
    · exact ⟨net.submitted.length + 1, by omega, le_refl _, next small⟩
  · rw [length]
    intro small left right leftIssued rightIssued same
    rcases issuedNow left leftIssued with leftOld | ⟨leftBlock, leftGiven, rfl⟩
    · rcases issuedNow right rightIssued with rightOld | ⟨rightBlock, _, rfl⟩
      · exact numbered.unique (by omega) left right leftOld rightOld same
      · exact absurd same (fresh small left leftOld)
    · rcases issuedNow right rightIssued with rightOld | ⟨rightBlock, rightGiven, rfl⟩
      · exact absurd same.symm (fresh small right rightOld)
      · obtain rfl := Option.some.inj (leftGiven.symm.trans rightGiven)
        rfl

end Numbers

section Runs

theorem call_number_known
    (lawful : NetLawful cluster ∅ (proposalWire cluster ∅ (recordOf net))
      (issuedLaw cluster ∅ (recordOf net)) net)
    (numbered : Numbered cluster net) (small : net.submitted.length + 1 < 2 ^ 64) {call : Call}
    (source : Source cluster net event (leaderOf cluster) call) (reqID : UInt64)
    (named : Raises (net.replicas (leaderOf cluster)).worker call reqID) :
    reqID ≤ (net.replicas (leaderOf cluster)).worker.lastReqID := by
  have honest : Honest cluster ∅ (leaderOf cluster) :=
    ⟨leader_member cluster, Finset.notMem_empty _⟩
  have issued : ∃ request, Issued cluster (recordOf net) request ∧ request.reqID = reqID := by
    cases named with
    | request request =>
        obtain ⟨peer, posted⟩ := (source_wire lawful honest source _ rfl).resolve_left
          (Finset.notMem_empty _)
        have leader := lawful.issuer _ ⟨peer, Finset.notMem_empty _⟩ _ _ posted
        rw [leader] at posted
        exact ⟨request, posted, rfl⟩
    | prePrepare preprep carried admitted =>
        have view := congrArg Identity.view (lawful.identity (leaderOf cluster))
        have current : preprep.view = 1 := (admits_view admitted).trans view
        obtain ⟨request, issued, _, number, _⟩ :=
          source_wire lawful honest source _ rfl current (by simp [admitted.carried])
        exact ⟨request, issued, number.symm⟩
  obtain ⟨request, posted, rfl⟩ := issued
  obtain ⟨place, _, bound, number⟩ := numbered.numbers (by omega) request posted
  rw [numbered.counter small, number, UInt64.le_iff_toNat_le]
  simp only [UInt64.toNat_ofNat']
  omega

theorem step_numbered
    (lawful : NetLawful cluster ∅ (proposalWire cluster ∅ (recordOf net))
      (issuedLaw cluster ∅ (recordOf net)) net)
    (stepped : netStep cluster net event = some after) (numbered : Numbered cluster net) :
    Numbered cluster after := by
  cases step_moves stepped with
  | ran now id rest call flight source member alive owed travelling kept =>
      by_cases sent : ∃ raaaa, call = .sendRequest raaaa
      · obtain ⟨raaaa, rfl⟩ := sent
        obtain ⟨rfl, time, rfl⟩ := source_send_request lawful ⟨member, Finset.notMem_empty _⟩ source
        refine numbered_of_submit numbered ?_ ?_ rfl
        · simp only [Function.update_self]
          exact send_request_counter _ raaaa
        · intro request issued
          simp only [Issued, recordOf, Function.update_self] at issued
          rcases List.mem_append.mp issued with old | new
          · exact .inl old
          · exact .inr (send_request_posts new)
      · have received : ∀ raaaa, call ≠ .sendRequest raaaa := fun raaaa same => sent ⟨raaaa, same⟩
        have history : submittedAfter net event = net.submitted := by
          cases source with
          | submit time raaaa => exact absurd rfl (received raaaa)
          | _ => rfl
        refine numbered_of_same numbered ?_ ?_ history
        · intro small
          by_cases same : leaderOf cluster = id
          · subst same
            simp only [Function.update_self]
            exact run_call_counter_kept now received
              (call_number_known lawful numbered small source)
          · simp only [Function.update_of_ne same]
        · intro request issued
          by_cases same : leaderOf cluster = id
          · subst same
            simp only [Issued, recordOf, Function.update_self] at issued
            rcases List.mem_append.mp issued with old | new
            · exact old
            · obtain ⟨before, effects, next, _, action, posted, _⟩ :=
                chain_output (fun _ => True) trivial (fun _ _ _ _ _ => trivial)
                  (run_call_performs now _ call) _ new
              obtain ⟨raaaa, _, rfl, _⟩ := action_posts_request action posted
              exact absurd rfl (received raaaa)
          · simpa only [Issued, recordOf, Function.update_of_ne same] using issued
  | idle flight travelling kept => exact ⟨numbered.counter, numbered.numbers, numbered.unique⟩
  | injected envelope put => exact ⟨numbered.counter, numbered.numbers, numbered.unique⟩

theorem run_numbered (closed : Closed allowed) {events : List NetEvent}
    (run : Run (netStep cluster) allowed (startNetwork cluster) events net) :
    Numbered cluster net := by
  induction run with
  | start => exact start_numbered cluster
  | next event prior guard stepped ih =>
      exact step_numbered (run_correct_lawful closed prior) stepped ih

/-- With fewer than `2 ^ 64` calls of `SendRequest`, the issued requests form a
book and the histories of all nodes are explained by it. -/
theorem run_explained_by_book (closed : Closed allowed) {events : List NetEvent}
    (run : Run (netStep cluster) allowed (startNetwork cluster) events net)
    (few : net.submitted.length < 2 ^ 64) :
    ∃ book, ∀ id, id ∈ membersOf cluster → ∀ effect ∈ (net.replicas id).log,
      Explained (bookLaw cluster ∅ (recordOf net) book) (quorumOf cluster) id effect := by
  obtain ⟨book, entries⟩ := book_of_unique ((run_numbered closed run).unique few)
  refine ⟨book, fun id member effect inside => ?_⟩
  have issued := lawful_history (run_correct_lawful closed run) id ⟨member, Finset.notMem_empty _⟩
    effect inside
  exact explained_weaken (issued_refines_book entries) issued

end Runs

end PbftBlock.RequestNumbers
