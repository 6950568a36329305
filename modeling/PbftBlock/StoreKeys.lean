import PbftBlock.PrepareDigests

/-!
# The keys of `reqStore` and `certStore`

A request belongs under its own digest, and everything in a certificate under
the view and number it names. Both fail for a PrePrepare that disagrees with
the request inside it: the first store of `RecvPrePrepare` compares nothing, and
the slot is written under the number of the request while it is read under the
number of the PrePrepare. `RecvRequest` also writes the slot without looking at
what is there.
-/

namespace PbftBlock.StoreKeys

open PbftBlock.ConsensusMessages PbftBlock.ConsensusWorker PbftBlock.ConsensusBasics
open PbftBlock.ConsensusHandlers PbftBlock.HandlerActions PbftBlock.ActionChanges
open PbftBlock.NodeMachine PbftBlock.NodeContents
open PbftBlock.CommitOncePerHeight PbftBlock.PrepareDigests
open PbftBlock.Library.FiniteMaps PbftBlock.Library.GuardedRuns

set_option autoImplicit false

section Requests

/-- A PrePrepare whose request is about to be stored names the digest of that
request. -/
def StoresMatching (worker : Worker) (call : Call) : Prop :=
  ∀ preprep request, call = .recvPrePrepare preprep → Admits worker preprep request →
    worker.reqStore.lookup preprep.requestDigest = none →
    newhashReq request = preprep.requestDigest

def requestKeyLaw : ContentLaw where
  stored digest request := newhashReq request = digest
  slot _ _ := True
  prepare _ := True
  commit _ := True

theorem brings_request_keys (worker : Worker) (call : Call)
    (checked : StoresMatching worker call) : Brings requestKeyLaw worker call where
  stored digest request stores := by
    cases stores with
    | accepted _ _ => rfl
    | carried preprep _ tests fresh => exact checked preprep request rfl tests fresh
  proposed _ _ _ _ := trivial
  tracked _ _ _ _ _ _ := trivial
  prepare _ _ := trivial
  commit _ _ := trivial

/-- When the comparison is made before the first store, every request lies
under its own digest in every state. -/
theorem stored_requests_keyed_by_digest (nodeID leader : String) (peersnum : Int)
    (events : List Event) (last : Replica)
    (run : Run step (EachCall StoresMatching) (boot nodeID leader peersnum) events last)
    (digest : String) (request : Request)
    (stored : last.worker.reqStore.lookup digest = some request) : newhashReq request = digest :=
  (run_lawful brings_request_keys run).requests digest request stored

theorem each_call_stores_matching (replica : Replica) (event : Event)
    (passed : checksDigest replica event = true) : EachCall StoresMatching replica event := by
  intro call ran preprep request called tests _
  subst called
  simpa [checksDigest, ran, tests.carried] using passed

/-- A proposal for number 7 arrives before the leader's Request for number 8. -/
def keyedSchedule : List Event :=
  [.invoke 0 (.recvPrePrepare
      (prePrepareFor "a" 7 "7" (leaderRequest "a" 7 (plainBlock 2 0)))),
    .invoke 1 (.recvRequest (leaderRequest "a" 8 (plainBlock 2 0)))]

theorem stored_requests_keyed_by_digest_on_schedule :
    ∃ last, Run step (EachCall StoresMatching) (boot "b" "a" 4) keyedSchedule last ∧
      last.worker.reqStore.lookup "7" = some (leaderRequest "a" 7 (plainBlock 2 0)) ∧
      newhashReq (leaderRequest "a" 7 (plainBlock 2 0)) = "7" := by
  obtain ⟨last, run, found⟩ : ∃ last,
      Run step (EachCall StoresMatching) (boot "b" "a" 4) keyedSchedule last ∧
        decide (last.worker.reqStore.lookup "7" =
          some (leaderRequest "a" 7 (plainBlock 2 0))) = true :=
    run_reaching checksDigest
      (fun last : Replica => decide (last.worker.reqStore.lookup "7" =
        some (leaderRequest "a" 7 (plainBlock 2 0))))
      each_call_stores_matching (by decide +kernel)
  have stored := of_decide_eq_true found
  exact ⟨last, run, stored, stored_requests_keyed_by_digest "b" "a" 4 _ last run _ _ stored⟩

/-- One PrePrepare with a made-up digest is enough to store its request there. -/
theorem request_stored_under_foreign_digest :
    ∃ last, Run step (fun _ _ => True) (boot "b" "a" 4)
        [.invoke 0 (.recvPrePrepare
          (prePrepareFor "c" 5 "x" (leaderRequest "a" 5 (plainBlock 2 0))))] last ∧
      last.worker.reqStore.lookup "x" = some (leaderRequest "a" 5 (plainBlock 2 0)) ∧
      newhashReq (leaderRequest "a" 5 (plainBlock 2 0)) ≠ "x" := by
  obtain ⟨last, run, found⟩ : ∃ last, Run step (fun _ _ => True) (boot "b" "a" 4)
      [.invoke 0 (.recvPrePrepare
        (prePrepareFor "c" 5 "x" (leaderRequest "a" 5 (plainBlock 2 0))))] last ∧
        decide (last.worker.reqStore.lookup "x" =
          some (leaderRequest "a" 5 (plainBlock 2 0))) = true :=
    run_reaching (fun _ _ => true)
      (fun last : Replica => decide (last.worker.reqStore.lookup "x" =
        some (leaderRequest "a" 5 (plainBlock 2 0))))
      (fun _ _ _ => trivial) (by decide +kernel)
  exact ⟨last, run, of_decide_eq_true found, by decide⟩

end Requests

section Slots

def slotOf (worker : Worker) (id : MsgID) : Option PrePrepare := (certAt worker id).prePrepare

/-- What one call can do to the slot of a certificate. -/
inductive SlotChange (first : Worker) (id : MsgID) :
    Call → Option PrePrepare → Option PrePrepare → Prop where
  | kept (call : Call) (slot : Option PrePrepare) : SlotChange first id call slot slot
  | removed (commit : Commit) (slot : Option PrePrepare) :
      SlotChange first id (.recvCommit commit) slot none
  | proposed (request : Request) (maker : Worker) (slot : Option PrePrepare)
      (tests : Accepts first request) (current : inV first request.view = true)
      (key : id = ⟨request.view, request.reqID⟩) :
      SlotChange first id (.recvRequest request) slot (some (proposal maker request))
  | tracked (preprep : PrePrepare) (request : Request) (slot : Option PrePrepare)
      (tests : Admits first preprep request) (above : first.currentBlock < request.blockHeight)
      (key : id = ⟨preprep.view, request.reqID⟩)
      (free : ∀ p, slot = some p → p.requestDigest = preprep.requestDigest) :
      SlotChange first id (.recvPrePrepare preprep) slot (some preprep)

theorem slot_change_trans {first : Worker} {id : MsgID} {call : Call}
    {old middle new : Option PrePrepare} (early : SlotChange first id call old middle)
    (late : SlotChange first id call middle new) : SlotChange first id call old new := by
  cases early with
  | kept => exact late
  | removed commit _ =>
      cases late with
      | kept => exact .removed commit old
      | removed => exact .removed commit old
  | proposed request maker _ tests current key =>
      cases late with
      | kept => exact .proposed request maker old tests current key
      | proposed _ again _ _ _ _ => exact .proposed request again old tests current key
  | tracked preprep request _ tests above key free =>
      cases late with
      | kept => exact .tracked preprep request old tests above key free
      | tracked _ _ _ _ _ _ _ => exact .tracked preprep request old tests above key free

variable {now : Instant} {first before after : Worker} {call : Call} {effects : List Effect}

theorem slot_kept_by_modify {worker : Worker} {key : MsgID} {change : MsgCert → MsgCert}
    (same : ∀ id, slotOf worker id = slotOf before id)
    (silent : ∀ cert, (change cert).prePrepare = cert.prePrepare) (id : MsgID) :
    SlotChange first id call (slotOf before id) (slotOf (modifyCert worker key change) id) := by
  have untouched : slotOf (modifyCert worker key change) id = slotOf before id := by
    rw [← same]
    unfold slotOf
    rw [cert_at_modify_cert]
    split_ifs with target
    · rw [silent, target]
    · rfl
  rw [untouched]
  exact .kept _ _

theorem slot_of_get_cert (worker : Worker) (v reqID : UInt64) (id : MsgID) :
    slotOf (getCert worker v reqID) id = slotOf worker id :=
  congrArg MsgCert.prePrepare (cert_at_get_cert worker v reqID id)

theorem slot_of_write (worker : Worker) (key id : MsgID) (preprep : PrePrepare) :
    slotOf (modifyCert worker key fun cert => { cert with prePrepare := some preprep }) id =
      if id = key then some preprep else slotOf worker id := by
  unfold slotOf
  rw [cert_at_modify_cert]
  split_ifs <;> rfl

theorem slot_of_remove (worker : Worker) (reqID : UInt64) (id : MsgID) :
    slotOf (removeOldConMsg worker reqID) id = if id.n ≤ reqID then none else slotOf worker id := by
  unfold slotOf
  rw [cert_at_remove_old]
  split_ifs <;> rfl

theorem slot_change_of_remove (commit : Commit) (worker : Worker) (id : MsgID) :
    SlotChange first id (.recvCommit commit) (slotOf worker id)
      (slotOf (removeOldConMsg worker commit.reqID) id) := by
  rw [slot_of_remove]
  split_ifs
  · exact .removed commit _
  · exact .kept _ _

theorem action_slot (same : identityOf before = identityOf first)
    (action : Action now first call before effects after) (id : MsgID) :
    SlotChange first id call (slotOf before id) (slotOf after id) := by
  cases action with
  | propose request _ tests current _ =>
      unfold putPrePrepareInCert
      rw [slot_of_write, slot_of_get_cert]
      split_ifs with key
      · have view : before.view = first.view := congrArg Identity.view same
        exact .proposed request before _ tests (by rwa [inV, view] at current) key
      · exact .kept _ _
  | openCert _ key _ =>
      rw [slot_of_get_cert]
      exact .kept _ _
  | track preprep request _ tests above _ _ free =>
      rw [slot_of_write]
      split_ifs with key
      · exact .tracked preprep request _ tests above key (by rw [key]; exact free)
      · exact .kept _ _
  | sendPrepare preprep request _ _ _ _ _ =>
      exact slot_kept_by_modify (fun _ => rfl) (by intro; rfl) id
  | addPrepare _ prep request _ _ _ _ _ _ _ =>
      exact slot_kept_by_modify (fun _ => rfl) (by intro; rfl) id
  | sendCommit _ prep request block _ _ _ _ _ _ _ =>
      have recorded : ∀ id, slotOf (recordCommit before request) id = slotOf before id :=
        fun _ => rfl
      exact slot_kept_by_modify recorded (by intro; rfl) id
  | addCommit commit _ _ _ _ =>
      exact slot_kept_by_modify (fun _ => rfl) (by intro; rfl) id
  | decidePositive commit _ _ _ _ _ _ _ =>
      exact slot_change_of_remove commit { before with currentBlock := before.currentBlock + 1 } id
  | decideNegative commit _ _ _ => exact slot_change_of_remove commit before id
  | checkpoint chkpt _ =>
      obtain ⟨_, _, _, _, _, frame⟩ := recv_checkpoint_frame before chkpt
      rw [frame]
      exact .kept _ _
  | _ => exact .kept _ _

theorem run_call_slot (now : Instant) (worker : Worker) (call : Call) (id : MsgID) :
    SlotChange worker id call (slotOf worker id) (slotOf (runCall now worker call).worker id) := by
  refine (chain_state_invariant
    (fun state => identityOf state = identityOf worker ∧
      SlotChange worker id call (slotOf worker id) (slotOf state id))
    ⟨rfl, .kept _ _⟩ ?_ (run_call_performs now worker call)).2
  intro state _ next action prior
  exact ⟨(action_identity action).trans prior.1,
    slot_change_trans prior.2 (action_slot prior.1 action id)⟩

end Slots

section Certificates

/-- A PrePrepare that will be written into a slot names the number of its
request, and an accepted Request finds its slot empty or with its own digest. -/
structure SlotsRespected (worker : Worker) (call : Call) : Prop where
  numbered : ∀ preprep request, call = .recvPrePrepare preprep → Admits worker preprep request →
    worker.currentBlock < request.blockHeight →
    (∀ p, slotOf worker ⟨preprep.view, request.reqID⟩ = some p →
      p.requestDigest = preprep.requestDigest) →
    preprep.reqID = request.reqID
  unclaimed : ∀ request, call = .recvRequest request → Accepts worker request →
    inV worker request.view = true →
    ∀ p, slotOf worker ⟨request.view, request.reqID⟩ = some p →
      p.requestDigest = newhashReq request

def NamesKey (id : MsgID) (preprep : PrePrepare) : Prop :=
  preprep.view = id.v ∧ preprep.reqID = id.n ∧
    ∃ request, preprep.request = some request ∧ request.reqID = id.n

/-- What lies in a certificate names its key. -/
structure CertStoreKeyed (worker : Worker) : Prop where
  slots : ∀ id cert, worker.certStore.lookup id = some cert →
    ∀ preprep, cert.prePrepare = some preprep → NamesKey id preprep
  prepares : ∀ id cert, worker.certStore.lookup id = some cert →
    ∀ prep ∈ cert.prepare, prep.view = id.v ∧ prep.reqID = id.n
  commits : ∀ id cert, worker.certStore.lookup id = some cert →
    ∀ commit ∈ cert.commit, commit.view = id.v ∧ commit.reqID = id.n

theorem slot_change_names_key {worker : Worker} {call : Call} {id : MsgID}
    {old new : Option PrePrepare} (respected : SlotsRespected worker call)
    (change : SlotChange worker id call old new) (here : old = slotOf worker id)
    (prior : ∀ preprep, old = some preprep → NamesKey id preprep) :
    ∀ preprep, new = some preprep → NamesKey id preprep := by
  intro preprep slot
  cases change with
  | kept => exact prior preprep slot
  | removed => cases slot
  | proposed request maker _ tests _ key =>
      obtain rfl := Option.some.inj slot
      subst key
      exact ⟨rfl, rfl, request, rfl, rfl⟩
  | tracked tracked request _ tests above key free =>
      obtain rfl := Option.some.inj slot
      subst key
      subst here
      have number := respected.numbered tracked request rfl tests above free
      exact ⟨rfl, number, request, tests.carried, rfl⟩

theorem slot_change_same_digest {worker : Worker} {call : Call} {id : MsgID}
    {old new : PrePrepare} (respected : SlotsRespected worker call)
    (change : SlotChange worker id call (some old) (some new))
    (here : slotOf worker id = some old) : new.requestDigest = old.requestDigest := by
  cases change with
  | kept => rfl
  | proposed request maker _ tests current key =>
      subst key
      exact (respected.unclaimed request rfl tests current old here).symm
  | tracked _ request _ tests above key free => exact (free old rfl).symm

/-- No law on the contents is needed for the votes: they are filed under what
they name. -/
def anyLaw : ContentLaw where
  stored _ _ := True
  slot _ _ := True
  prepare _ := True
  commit _ := True

theorem brings_any (worker : Worker) (call : Call) : Brings anyLaw worker call where
  stored _ _ _ := trivial
  proposed _ _ _ _ := trivial
  tracked _ _ _ _ _ _ := trivial
  prepare _ _ := trivial
  commit _ _ := trivial

theorem run_slots_named {nodeID leader : String} {peersnum : Int} {events : List Event}
    {last : Replica}
    (run : Run step (EachCall SlotsRespected) (boot nodeID leader peersnum) events last) :
    ∀ id preprep, slotOf last.worker id = some preprep → NamesKey id preprep := by
  refine run_keeps
    (fun worker _ => ∀ id preprep, slotOf worker id = some preprep → NamesKey id preprep) ?_ run ?_
  · intro now worker _ call respected prior id
    exact slot_change_names_key respected (run_call_slot now worker call id) rfl (prior id)
  · intro id preprep slot
    cases slot

theorem cert_store_keyed_of_slots {worker : Worker} (lawful : Lawful anyLaw worker)
    (named : ∀ id preprep, slotOf worker id = some preprep → NamesKey id preprep) :
    CertStoreKeyed worker := by
  constructor
  · intro id cert present preprep slot
    exact named id preprep (by rw [slotOf, cert_at_of_lookup present, slot])
  · intro id cert present prep member
    have filed := (lawful.prepares id prep (by rwa [cert_at_of_lookup present])).2
    exact ⟨by rw [filed], by rw [filed]⟩
  · intro id cert present commit member
    have filed := (lawful.commits id commit (by rwa [cert_at_of_lookup present])).2
    exact ⟨by rw [filed], by rw [filed]⟩

/-- In runs that respect the slots, everything in `certStore` names its key, and
a slot changes its digest only through the removal of its certificate. -/
theorem certificates_stay_keyed (nodeID leader : String) (peersnum : Int) (events : List Event)
    (last : Replica)
    (run : Run step (EachCall SlotsRespected) (boot nodeID leader peersnum) events last) :
    CertStoreKeyed last.worker ∧
      ∀ event after, EachCall SlotsRespected last event → step last event = some after →
        ∀ id old new, slotOf last.worker id = some old → slotOf after.worker id = some new →
          new.requestDigest = old.requestDigest := by
  have named := run_slots_named run
  have lawful : Lawful anyLaw last.worker :=
    run_lawful (fun worker call _ => brings_any worker call) run
  refine ⟨cert_store_keyed_of_slots lawful named, ?_⟩
  intro event after allowed stepped id old new held replaced
  obtain ⟨now, rest, call, ran, _, rfl⟩ := step_performs stepped
  have change := run_call_slot now last.worker call id
  rw [held] at change
  have result : slotOf (runCall now last.worker call).worker id = some new := replaced
  rw [result] at change
  exact slot_change_same_digest (allowed call ran) change held

def respectsSlots (replica : Replica) (event : Event) : Bool :=
  match eventCall replica event with
  | some (.recvPrePrepare preprep) =>
      preprep.request.all fun request => preprep.reqID == request.reqID
  | some (.recvRequest request) =>
      (slotOf replica.worker ⟨request.view, request.reqID⟩).all fun p =>
        p.requestDigest == newhashReq request
  | _ => true

theorem each_call_respects_slots (replica : Replica) (event : Event)
    (passed : respectsSlots replica event = true) : EachCall SlotsRespected replica event := by
  intro call ran
  constructor
  · intro preprep request called tests _ _
    subst called
    simpa [respectsSlots, ran, tests.carried] using passed
  · intro request called _ _ p slot
    subst called
    simpa [respectsSlots, ran, slot] using passed

theorem certificates_stay_keyed_on_schedule :
    ∃ last, Run step (EachCall SlotsRespected) (boot "b" "a" 4) keyedSchedule last ∧
      (slotOf last.worker ⟨1, 7⟩).isSome = true ∧ (slotOf last.worker ⟨1, 8⟩).isSome = true ∧
      CertStoreKeyed last.worker := by
  obtain ⟨last, run, filled⟩ : ∃ last,
      Run step (EachCall SlotsRespected) (boot "b" "a" 4) keyedSchedule last ∧
        ((slotOf last.worker ⟨1, 7⟩).isSome && (slotOf last.worker ⟨1, 8⟩).isSome) = true :=
    run_reaching respectsSlots
      (fun last : Replica =>
        (slotOf last.worker ⟨1, 7⟩).isSome && (slotOf last.worker ⟨1, 8⟩).isSome)
      each_call_respects_slots (by decide +kernel)
  rw [Bool.and_eq_true] at filled
  exact ⟨last, run, filled.1, filled.2, (certificates_stay_keyed "b" "a" 4 _ last run).1⟩

/-- A proposal that names number 5 and carries request 6 is filed under 6; and
the leader's Request replaces a slot tracked under another digest. -/
theorem certificate_slots_misfiled_and_replaced :
    (∃ last, Run step (fun _ _ => True) (boot "b" "a" 4)
        [.invoke 0 (.recvPrePrepare
          (prePrepareFor "c" 5 "6" (leaderRequest "a" 6 (plainBlock 2 0))))] last ∧
      (slotOf last.worker ⟨1, 6⟩).map PrePrepare.reqID = some 5) ∧
    ∃ last after, Run step (fun _ _ => True) (boot "b" "a" 4)
        [.invoke 0 (.recvPrePrepare
          (prePrepareFor "c" 5 "x" (leaderRequest "a" 5 (plainBlock 2 0))))] last ∧
      step last (.invoke 1 (.recvRequest (leaderRequest "a" 5 (plainBlock 2 0)))) = some after ∧
      (slotOf last.worker ⟨1, 5⟩).map PrePrepare.requestDigest = some "x" ∧
      (slotOf after.worker ⟨1, 5⟩).map PrePrepare.requestDigest = some "5" := by
  constructor
  · obtain ⟨last, run, filed⟩ : ∃ last, Run step (fun _ _ => True) (boot "b" "a" 4)
        [.invoke 0 (.recvPrePrepare
          (prePrepareFor "c" 5 "6" (leaderRequest "a" 6 (plainBlock 2 0))))] last ∧
          decide ((slotOf last.worker ⟨1, 6⟩).map PrePrepare.reqID = some 5) = true :=
      run_reaching (fun _ _ => true)
        (fun last : Replica =>
          decide ((slotOf last.worker ⟨1, 6⟩).map PrePrepare.reqID = some 5))
        (fun _ _ _ => trivial) (by decide +kernel)
    exact ⟨last, run, of_decide_eq_true filed⟩
  · obtain ⟨last, run, replaced⟩ : ∃ last, Run step (fun _ _ => True) (boot "b" "a" 4)
        [.invoke 0 (.recvPrePrepare
          (prePrepareFor "c" 5 "x" (leaderRequest "a" 5 (plainBlock 2 0))))] last ∧
          (decide ((slotOf last.worker ⟨1, 5⟩).map PrePrepare.requestDigest = some "x") &&
            (step last (.invoke 1 (.recvRequest (leaderRequest "a" 5 (plainBlock 2 0))))).any
              fun after => decide ((slotOf after.worker ⟨1, 5⟩).map PrePrepare.requestDigest =
                some "5")) = true :=
      run_reaching (fun _ _ => true)
        (fun last : Replica =>
          decide ((slotOf last.worker ⟨1, 5⟩).map PrePrepare.requestDigest = some "x") &&
            (step last (.invoke 1 (.recvRequest (leaderRequest "a" 5 (plainBlock 2 0))))).any
              fun after => decide ((slotOf after.worker ⟨1, 5⟩).map PrePrepare.requestDigest =
                some "5"))
        (fun _ _ _ => trivial) (by decide +kernel)
    rw [Bool.and_eq_true, Option.any_eq_true] at replaced
    obtain ⟨tracked, after, stepped, overwritten⟩ := replaced
    exact ⟨last, after, run, stepped, of_decide_eq_true tracked, of_decide_eq_true overwritten⟩

end Certificates

end PbftBlock.StoreKeys
