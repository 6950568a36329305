import PbftBlock.Agreement

/-!
# Requests the leader has issued

With an honest leader, every request an honest node stores was issued by
`SendRequest` at the leader, provided that the PrePrepares it can admit carry
issued requests under their own number and digest. The numbers come from `LastReqID`,
which only `SendRequest` advances at the leader: as long as it has not wrapped
around, one number belongs to one request.
-/

namespace PbftBlock.IssuedRequests

open PbftBlock.ConsensusMessages PbftBlock.ConsensusWorker PbftBlock.ConsensusBasics
open PbftBlock.ConsensusHandlers PbftBlock.HandlerActions PbftBlock.ActionChanges
open PbftBlock.NodeMachine PbftBlock.NodeContents PbftBlock.ConsensusNetwork
open PbftBlock.NetworkContents PbftBlock.Agreement
open PbftBlock.Library.GuardedRuns

set_option autoImplicit false

def Issued (cluster : Cluster) (record : String → List Effect) (request : Request) : Prop :=
  .post ⟨.request request, leaderOf cluster⟩ ∈ record (leaderOf cluster)

def CarriesIssued (cluster : Cluster) (record : String → List Effect) (preprep : PrePrepare) :
    Prop :=
  ∃ request, Issued cluster record request ∧ preprep.request = some request ∧
    preprep.reqID = request.reqID ∧ preprep.requestDigest = newhashReq request

/-- A PrePrepare of another view or without a request is never admitted. -/
def proposalWire (cluster : Cluster) (byz : Finset String) (record : String → List Effect) :
    Message → Prop
  | .prePrepare preprep => preprep.view = 1 → preprep.request ≠ none →
      CarriesIssued cluster record preprep
  | msg => Authentic cluster byz record msg

def issuedLaw (cluster : Cluster) (byz : Finset String) (record : String → List Effect) :
    ContentLaw where
  stored digest request := digest = newhashReq request ∧ Issued cluster record request
  slot id preprep := ∃ request, Issued cluster record request ∧ preprep.request = some request ∧
    request.reqID = id.n ∧ preprep.requestDigest = newhashReq request
  prepare prep := Authentic cluster byz record (.prepare prep)
  commit commit := Authentic cluster byz record (.commit commit)

variable {cluster : Cluster} {byz : Finset String} {record : String → List Effect}
  {allowed : Network → NetEvent → Prop}

theorem brings_issued (leaderHonest : leaderOf cluster ∉ byz) {worker : Worker} {call : Call}
    (leader : worker.leader = leaderOf cluster) (view : worker.view = 1)
    (wire : ∀ msg, callMessage call = some msg → proposalWire cluster byz record msg) :
    Brings (issuedLaw cluster byz record) worker call := by
  have accepted : ∀ request, call = .recvRequest request → Accepts worker request →
      Issued cluster record request := by
    intro request called tests
    subst called
    have sender : request.sender = leaderOf cluster := tests.leader.trans leader
    rcases wire _ rfl with faulty | posted
    · exact absurd (sender ▸ faulty) leaderHonest
    · have recorded := posted.2
      simp only [messageSender, sender] at recorded
      exact recorded
  have admitted : ∀ preprep request, call = .recvPrePrepare preprep →
      Admits worker preprep request → Issued cluster record request ∧
        preprep.requestDigest = newhashReq request := by
    intro preprep request called tests
    subst called
    have current : preprep.view = 1 := (admits_view tests).trans view
    have carries : preprep.request ≠ none := by simp [tests.carried]
    obtain ⟨carried, issued, same, _, digest⟩ := wire _ rfl current carries
    obtain rfl := Option.some.inj (tests.carried.symm.trans same)
    exact ⟨issued, digest⟩
  constructor
  · intro digest request stores
    cases stores with
    | accepted _ tests => exact ⟨rfl, accepted request rfl tests⟩
    | carried preprep _ tests fresh =>
        obtain ⟨issued, same⟩ := admitted preprep request rfl tests
        exact ⟨same, issued⟩
  · intro request maker called tests
    exact ⟨request, accepted request called tests, rfl, rfl, rfl⟩
  · intro preprep request called tests _ _
    obtain ⟨issued, same⟩ := admitted preprep request called tests
    exact ⟨request, issued, tests.carried, rfl, same⟩
  · intro prep carried
    exact wire _ carried
  · intro commit carried
    exact wire _ carried

theorem issued_governs (leaderHonest : leaderOf cluster ∉ byz)
    (honest : ∀ net event id call, allowed net event → Source cluster net event id call → id ∉ byz)
    (injected : ∀ net envelope call msg, allowed net (.inject envelope) →
      Within cluster byz record net → envelope.dest ∉ byz →
      handleMsg envelope.link envelope.info = some call →
      callMessage call = some msg → proposalWire cluster byz record msg) :
    Governs cluster byz allowed record (proposalWire cluster byz record)
      (issuedLaw cluster byz record) where
  honest := honest
  brings net event id call lawful _ _ _ wire :=
    brings_issued leaderHonest (congrArg Identity.leader (lawful.identity id))
      (congrArg Identity.view (lawful.identity id)) wire
  posts id quorum msg sender member posted explained := by
    cases msg with
    | request request =>
        obtain ⟨rfl, rfl⟩ := explained
        exact .inr ⟨member.1, posted⟩
    | prePrepare preprep =>
        obtain ⟨_, _, request, stored, carried, _, number, digest⟩ := explained
        exact fun _ _ => ⟨request, stored.2, carried, number, digest⟩
    | prepare prep =>
        obtain ⟨rfl, rfl, _⟩ := explained
        exact .inr ⟨member.1, posted⟩
    | commit commit =>
        obtain ⟨rfl, rfl, _⟩ := explained
        exact .inr ⟨member.1, posted⟩
  votes _ vote := vote
  injected := injected

section LawOrder

/-- One content law allows no more than another. -/
structure Refines (strong weak : ContentLaw) : Prop where
  stored : ∀ digest request, strong.stored digest request → weak.stored digest request
  slot : ∀ id preprep, strong.slot id preprep → weak.slot id preprep
  commit : ∀ commit, strong.commit commit → weak.commit commit

variable {strong weak : ContentLaw} {quorum : Int}

theorem tracked_weaken (refines : Refines strong weak) {v reqID : UInt64} {digest : String}
    (tracked : Tracked strong v reqID digest) : Tracked weak v reqID digest := by
  obtain ⟨preprep, slot, rest⟩ := tracked
  exact ⟨preprep, refines.slot _ _ slot, rest⟩

theorem backed_weaken (refines : Refines strong weak) {decision : Decision}
    (backed : Backed strong quorum decision) : Backed weak quorum decision := by
  obtain ⟨votes, distinct, enough, lawful⟩ := backed.votes
  exact ⟨refines.stored _ _ backed.request, tracked_weaken refines backed.tracked,
    refines.commit _ backed.commit, votes, distinct, enough,
    fun vote member => ⟨refines.commit _ (lawful vote member).1, (lawful vote member).2⟩⟩

theorem explained_weaken (refines : Refines strong weak) {id : String} {effect : Effect}
    (explained : Explained strong quorum id effect) : Explained weak quorum id effect := by
  match effect with
  | .post ⟨.request _, _⟩ => exact explained
  | .post ⟨.prePrepare _, _⟩ =>
      obtain ⟨sender, named, request, stored, rest⟩ := explained
      exact ⟨sender, named, request, refines.stored _ _ stored, rest⟩
  | .post ⟨.prepare _, _⟩ =>
      obtain ⟨sender, named, tracked⟩ := explained
      exact ⟨sender, named, tracked_weaken refines tracked⟩
  | .post ⟨.commit _, _⟩ =>
      obtain ⟨sender, named, tracked, request, stored, rest⟩ := explained
      exact ⟨sender, named, tracked_weaken refines tracked, request,
        refines.stored _ _ stored, rest⟩
  | .insertChain _ => exact backed_weaken refines explained
  | .transfer _ => trivial
  | .postCheckpoint _ => trivial
  | .spawn _ => trivial

/-- When a number determines the issued request, the issued requests are a
book. -/
theorem issued_refines_book {book : UInt64 → Request}
    (entries : ∀ request, Issued cluster record request → request = book request.reqID) :
    Refines (issuedLaw cluster byz record) (bookLaw cluster byz record book) where
  stored _ request stored := ⟨stored.1, entries request stored.2⟩
  slot id preprep slot := by
    obtain ⟨request, _, _, number, digest⟩ := slot
    have named : preprep.requestDigest = itoa id.n := by
      rw [← number]
      exact digest
    exact named
  commit _ vote := vote

theorem book_of_unique
    (unique : ∀ left right, Issued cluster record left → Issued cluster record right →
      left.reqID = right.reqID → left = right) :
    ∃ book : UInt64 → Request, ∀ request, Issued cluster record request →
      request = book request.reqID := by
  classical
  let fallback : Request := ⟨0, "", 0, 0, "", hexToAddress "", [], none⟩
  refine ⟨fun number => if entry : ∃ request, Issued cluster record request ∧
    request.reqID = number then entry.choose else fallback, ?_⟩
  intro request issued
  have entry : ∃ other, Issued cluster record other ∧ other.reqID = request.reqID :=
    ⟨request, issued, rfl⟩
  dsimp only
  rw [dif_pos entry]
  exact unique request entry.choose issued entry.choose_spec.1 entry.choose_spec.2.symm

end LawOrder

end PbftBlock.IssuedRequests
