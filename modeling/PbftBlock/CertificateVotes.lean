import PbftBlock.PrepareDigests

/-!
# What the two certificates are worth

`prepared` counts entries, and `RecvPrepare_notTransfer` appends a sender that
is already there: the count is a count of voters as long as that only happens
while the certificate is prepared, as it was when the call was started. `committed` and `GetValidResFromCommit`
count voters but look at neither digest, height nor hash: a positive certificate
is about one block exactly when all Commits in it are.
-/

namespace PbftBlock.CertificateVotes

open PbftBlock.ConsensusMessages PbftBlock.ConsensusWorker PbftBlock.ConsensusBasics
open PbftBlock.ConsensusHandlers PbftBlock.HandlerActions PbftBlock.ActionChanges
open PbftBlock.NodeMachine PbftBlock.NodeContents PbftBlock.CommitOncePerHeight
open PbftBlock.PrepareDigests
open PbftBlock.Library.DistinctVotes PbftBlock.Library.GuardedRuns

set_option autoImplicit false

section PreparedQuorum

def preparedSenders (cert : MsgCert) (digest : String) (v reqID : UInt64) : List String :=
  (cert.prepare.filter (matchesPrepare digest v reqID)).map Prepare.sender

/-- When the compensation path appends a Prepare of a sender that is counted already,
the certificate for that digest is still prepared. -/
def RetriedWhilePrepared (worker : Worker) (call : Call) : Prop :=
  ∀ prep request, call = .recvPrepareNotTransfer prep → TakesPrepare worker prep request →
    prep.sender ∈ preparedSenders (certAt worker ⟨prep.view, prep.reqID⟩) prep.requestDigest
      prep.view prep.reqID →
    prepared worker prep.requestDigest prep.view prep.reqID = true

/-- When it does, the entries for that digest already come from a quorum of senders. -/
def RetryHarmless (worker : Worker) (call : Call) : Prop :=
  ∀ prep request, call = .recvPrepareNotTransfer prep → TakesPrepare worker prep request →
    prep.sender ∈ preparedSenders (certAt worker ⟨prep.view, prep.reqID⟩) prep.requestDigest
      prep.view prep.reqID →
    getQuorum worker ≤ ((preparedSenders (certAt worker ⟨prep.view, prep.reqID⟩)
      prep.requestDigest prep.view prep.reqID).toFinset.card : Int)

def PreparesSound (worker : Worker) : Prop :=
  ∀ id digest, TallySound (getQuorum worker) (preparedSenders (certAt worker id) digest id.v id.n)

variable {now : Instant} {first before after : Worker} {call : Call} {effects : List Effect}

theorem prepared_senders_append (cert : MsgCert) (prep : Prepare) (digest : String)
    (v reqID : UInt64) :
    preparedSenders { cert with prepare := cert.prepare ++ [prep] } digest v reqID =
      if matchesPrepare digest v reqID prep then
        preparedSenders cert digest v reqID ++ [prep.sender]
      else preparedSenders cert digest v reqID := by
  unfold preparedSenders
  split_ifs with matching
  · simp [matching]
  · simp [matching]

theorem cert_change_tally {id : MsgID} {old new : MsgCert} (harmless : RetryHarmless first call)
    (change : CertChange first call id old new) (digest : String)
    (sound : TallySound (getQuorum first) (preparedSenders old digest id.v id.n)) :
    TallySound (getQuorum first) (preparedSenders new digest id.v id.n) := by
  cases change with
  | removed => exact .inl List.nodup_nil
  | prepareAdded _ prep request _ counts taken unchanged =>
      rw [prepared_senders_append]
      split_ifs with matching
      · apply tally_sound_append sound
        have sameDigest : prep.requestDigest = digest := by
          simp only [matchesPrepare, Bool.and_eq_true, beq_iff_eq] at matching
          exact matching.2
        by_cases present : prep.sender ∈ preparedSenders old digest prep.view prep.reqID
        · right
          rcases counts with ⟨_, fresh⟩ | called
          · obtain ⟨p, member, same⟩ := List.mem_map.mp present
            exact absurd same (fresh p (List.mem_of_mem_filter member))
          · subst unchanged
            rw [← sameDigest] at present ⊢
            exact harmless prep request called taken present
        · exact .inl present
      · exact sound
  | _ => exact sound

theorem quorum_of_prepared {worker : Worker} {digest : String} {v reqID : UInt64}
    (sound : PreparesSound worker) (reached : prepared worker digest v reqID = true) :
    getQuorum worker ≤
      ((preparedSenders (certAt worker ⟨v, reqID⟩) digest v reqID).toFinset.card : Int) := by
  apply quorum_of_tally (sound ⟨v, reqID⟩ digest)
  have tally := (prepared_tally reached).2
  simpa [preparedSenders, List.countP_eq_length_filter] using tally

theorem retry_harmless_of_prepared (sound : PreparesSound first)
    (retried : RetriedWhilePrepared first call) : RetryHarmless first call :=
  fun prep request called taken present =>
    quorum_of_prepared sound (retried prep request called taken present)

theorem run_prepares_sound {nodeID leader : String} {peersnum : Int} {events : List Event}
    {last : Replica}
    (run : Run step (EachCall RetriedWhilePrepared) (boot nodeID leader peersnum) events last) :
    PreparesSound last.worker := by
  refine run_keeps (fun worker _ => PreparesSound worker) ?_ run ?_
  · intro now worker log call retried prior
    have harmless := retry_harmless_of_prepared prior retried
    have kept : PreparesSound (runCall now worker call).worker ∧
        identityOf (runCall now worker call).worker = identityOf worker := by
      refine chain_state_invariant
        (fun state => PreparesSound state ∧ identityOf state = identityOf worker) ⟨prior, rfl⟩ ?_
        (run_call_performs now worker call)
      intro before effects after action held
      have same := (action_identity action).trans held.2
      refine ⟨?_, same⟩
      intro id digest
      have sound := held.1 id digest
      rw [get_quorum_eq_of_identity held.2] at sound
      rw [get_quorum_eq_of_identity same]
      exact cert_change_tally harmless (action_cert action id) digest sound
    exact kept.1
  · intro id digest
    exact .inl List.nodup_nil

/-- Under that condition a prepared certificate has a quorum of voters, in
every state a node can reach. -/
theorem prepared_has_quorum_of_senders (nodeID leader : String) (peersnum : Int)
    (events : List Event) (last : Replica)
    (run : Run step (EachCall RetriedWhilePrepared) (boot nodeID leader peersnum) events last)
    (digest : String) (v reqID : UInt64)
    (reached : prepared last.worker digest v reqID = true) :
    getQuorum last.worker ≤ ((preparedSenders (certAt last.worker ⟨v, reqID⟩) digest v
      reqID).toFinset.card : Int) := by
  have sound := run_prepares_sound run
  exact quorum_of_prepared sound reached

/-- Three Prepares overtake the PrePrepare of their number, which then makes
the node count the first of them again. -/
def overtakenSchedule : List Event :=
  [.invoke 0 (.recvPrePrepare
      (prePrepareFor "c" 50 "d" (leaderRequest "a" 50 (plainBlock 100 0)))),
    .invoke 1 (.recvPrepare (voteFor "a" 9 "d")),
    .invoke 2 (.recvPrepare (voteFor "c" 9 "d")),
    .invoke 3 (.recvPrepare (voteFor "d" 9 "d")),
    .invoke 4 (.recvPrePrepare
      (prePrepareFor "c" 9 "d" (leaderRequest "a" 9 (plainBlock 100 0))))]

def retriesWhilePrepared (replica : Replica) (event : Event) : Bool :=
  match eventCall replica event with
  | some (.recvPrepareNotTransfer prep) =>
      prepared replica.worker prep.requestDigest prep.view prep.reqID
  | _ => true

theorem each_call_of_retries_while_prepared (replica : Replica) (event : Event)
    (passed : retriesWhilePrepared replica event = true) :
    EachCall RetriedWhilePrepared replica event := by
  intro call ran prep _ called _ _
  subst called
  simpa only [retriesWhilePrepared, ran] using passed

theorem prepared_has_quorum_of_senders_after_retry :
    ∃ last, Run step (EachCall RetriedWhilePrepared) (boot "b" "a" 4)
        (overtakenSchedule ++ [.resume 5 1]) last ∧
      prepared last.worker "d" 1 9 = true ∧
      getQuorum last.worker ≤
        ((preparedSenders (certAt last.worker ⟨1, 9⟩) "d" 1 9).toFinset.card : Int) := by
  obtain ⟨last, run, reached⟩ : ∃ last,
      Run step (EachCall RetriedWhilePrepared) (boot "b" "a" 4)
          (overtakenSchedule ++ [.resume 5 1]) last ∧
        prepared last.worker "d" 1 9 = true :=
    run_reaching retriesWhilePrepared (fun last : Replica => prepared last.worker "d" 1 9)
      each_call_of_retries_while_prepared (by decide +kernel)
  exact ⟨last, run, reached,
    prepared_has_quorum_of_senders "b" "a" 4 _ last run "d" 1 9 reached⟩

/-- Number 10 is decided while the retry is still owed, which removes the
certificate of number 9; the retry then meets a new certificate. -/
def doubleCountSchedule : List Event :=
  overtakenSchedule ++
    [.invoke 5 (.recvPrePrepare
        (prePrepareFor "a" 10 "10" (leaderRequest "a" 10 (plainBlock 2 0)))),
      .invoke 6 (.recvPrepare (voteFor "a" 10 "10")),
      .invoke 7 (.recvPrepare (voteFor "c" 10 "10")),
      .invoke 8 (.recvPrepare (voteFor "d" 10 "10")),
      .invoke 9 (.recvCommit (commitVote "a" 10 "10" 2 "2")),
      .invoke 10 (.recvCommit (commitVote "c" 10 "10" 2 "2")),
      .invoke 11 (.recvCommit (commitVote "d" 10 "10" 2 "2")),
      .invoke 12 (.recvPrepare (voteFor "a" 9 "d")),
      .resume 13 1,
      .invoke 14 (.recvPrepare (voteFor "c" 9 "d")),
      .invoke 15 (.recvPrePrepare
        (prePrepareFor "c" 9 "d" (leaderRequest "a" 9 (plainBlock 100 0))))]

theorem prepared_without_quorum_of_senders :
    ∃ last, Run step (fun _ _ => True) (boot "b" "a" 4) doubleCountSchedule last ∧
      prepared last.worker "d" 1 9 = true ∧
      preparedSenders (certAt last.worker ⟨1, 9⟩) "d" 1 9 = ["a", "a", "c"] ∧
      ¬getQuorum last.worker ≤
        ((preparedSenders (certAt last.worker ⟨1, 9⟩) "d" 1 9).toFinset.card : Int) := by
  obtain ⟨last, run, reached⟩ : ∃ last,
      Run step (fun _ _ => True) (boot "b" "a" 4) doubleCountSchedule last ∧
        decide (prepared last.worker "d" 1 9 = true ∧
          preparedSenders (certAt last.worker ⟨1, 9⟩) "d" 1 9 = ["a", "a", "c"] ∧
          getQuorum last.worker = 3) = true :=
    run_reaching (fun _ _ => true)
      (fun last : Replica => decide (prepared last.worker "d" 1 9 = true ∧
        preparedSenders (certAt last.worker ⟨1, 9⟩) "d" 1 9 = ["a", "a", "c"] ∧
        getQuorum last.worker = 3))
      (fun _ _ _ => trivial) (by decide +kernel)
  obtain ⟨certified, senders, quorum⟩ := of_decide_eq_true reached
  refine ⟨last, run, certified, senders, ?_⟩
  rw [senders, quorum]
  decide

end PreparedQuorum

section CommitCertificate

/-- The commit is about the proposal in the certificate: its digest, and the
height and hash of its request. -/
def NamesProposal (preprep : PrePrepare) (request : Request) (commit : Commit) : Prop :=
  commit.requestDigest = preprep.requestDigest ∧
    commit.vr.blockHeight = request.blockHeight ∧ commit.vr.blockHash = request.blockHash

instance (preprep : PrePrepare) (request : Request) (commit : Commit) :
    Decidable (NamesProposal preprep request commit) :=
  inferInstanceAs (Decidable (_ ∧ _))

/-- What a positive certificate should be worth: a quorum of voters with a
positive opinion on the proposal, nothing else counted, and the checkpoint of
that proposal. -/
def SoundCertificate (worker : Worker) (commit : Commit) : Prop :=
  let cert := certAt (withCommit worker commit) ⟨commit.view, commit.reqID⟩
  ∃ preprep request, cert.prePrepare = some preprep ∧ preprep.request = some request ∧
    (∃ votes : List Commit, votes.Sublist cert.commit ∧ (votes.map Commit.sender).Nodup ∧
      getQuorum worker ≤ (votes.length : Int) ∧
      ∀ vote ∈ votes, vote.vr.opinion = true ∧ NamesProposal preprep request vote) ∧
    (∀ vote ∈ committedVotes cert commit.view commit.reqID, NamesProposal preprep request vote) ∧
    (∀ vote ∈ counted Commit.sender cert.commit, NamesProposal preprep request vote) ∧
    ∀ chkpt, .postCheckpoint chkpt ∈ (recvCommit worker commit).effects →
      chkpt.blockHeight = request.blockHeight ∧ chkpt.blockHash = request.blockHash

/-- Every Commit in the certificate, the new one included, is about the
proposal in its slot. -/
def CommitsAgree (worker : Worker) (commit : Commit) : Prop :=
  ∀ preprep request,
    (certAt worker ⟨commit.view, commit.reqID⟩).prePrepare = some preprep →
    preprep.request = some request →
    ∀ vote ∈ (certAt worker ⟨commit.view, commit.reqID⟩).commit ++ [commit],
      NamesProposal preprep request vote

def carriesRequestLaw : ContentLaw where
  stored _ _ := True
  slot _ preprep := preprep.request.isSome = true
  prepare _ := True
  commit _ := True

theorem brings_carried_requests (worker : Worker) (call : Call) :
    Brings carriesRequestLaw worker call where
  stored _ _ _ := trivial
  proposed _ _ _ _ := rfl
  tracked preprep request _ tests _ _ := by
    simp [carriesRequestLaw, tests.carried]
  prepare _ _ := trivial
  commit _ _ := trivial

structure CommitsDistinct (worker : Worker) : Prop where
  lawful : Lawful carriesRequestLaw worker
  distinct : ∀ id, ((certAt worker id).commit.map Commit.sender).Nodup

variable {now : Instant} {first before after : Worker} {call : Call} {effects : List Effect}

theorem cert_change_distinct {id : MsgID} {old new : MsgCert}
    (change : CertChange first call id old new)
    (distinct : (old.commit.map Commit.sender).Nodup) :
    (new.commit.map Commit.sender).Nodup := by
  cases change with
  | removed => exact List.nodup_nil
  | commitAdded commit _ fresh =>
      rw [List.map_append, List.map_singleton, ← List.concat_eq_append]
      apply distinct.concat
      intro repeated
      obtain ⟨vote, member, same⟩ := List.mem_map.mp repeated
      exact fresh vote member same
  | _ => exact distinct

theorem action_commits_distinct (action : Action now first call before effects after)
    (prior : CommitsDistinct before) : CommitsDistinct after where
  lawful := action_lawful (brings_carried_requests first call) action prior.lawful
  distinct id := cert_change_distinct (action_cert action id) (prior.distinct id)

theorem run_commits_distinct {nodeID leader : String} {peersnum : Int} {events : List Event}
    {last : Replica} (run : Run step (fun _ _ => True) (boot nodeID leader peersnum) events last) :
    CommitsDistinct last.worker := by
  have checked : Run step (EachCall fun _ _ => True) (boot nodeID leader peersnum) events last :=
    run_weaken (fun _ _ _ _ _ => trivial) run
  refine run_keeps (fun worker _ => CommitsDistinct worker) ?_ checked
    ⟨start_lawful _ _ _ _, fun id => List.nodup_nil⟩
  intro now worker log call _ prior
  exact chain_state_invariant CommitsDistinct prior
    (fun _ _ _ action held => action_commits_distinct action held)
    (run_call_performs now worker call)

theorem cert_at_with_commit (worker : Worker) (commit : Commit) :
    certAt (withCommit worker commit) ⟨commit.view, commit.reqID⟩ =
      { certAt worker ⟨commit.view, commit.reqID⟩ with
        commit := (certAt worker ⟨commit.view, commit.reqID⟩).commit ++ [commit] } := by
  unfold withCommit addCommit
  rw [cert_at_modify_cert, if_pos rfl, cert_at_get_cert]

theorem positive_branch {worker : Worker} (prior : CommitsDistinct worker) {commit : Commit}
    {decision : Decision}
    (taken : .insertChain decision ∈ (recvCommit worker commit).effects) :
    CommitsDistinct (withCommit worker commit) ∧
      committed (withCommit worker commit) commit.requestDigest commit.view commit.reqID = true ∧
      getValidResFromCommit (withCommit worker commit)
        (certAt (withCommit worker commit) ⟨commit.view, commit.reqID⟩) = .possitive := by
  obtain ⟨before, effects, after, distinct, action, member, _⟩ :=
    chain_output CommitsDistinct prior
      (fun _ _ _ action held => action_commits_distinct action held)
      (recv_commit_performs 0 worker commit) _ taken
  obtain ⟨called, added, _, reached, verdict, _⟩ := action_inserts action member
  obtain rfl := Call.recvCommit.inj called
  rw [added] at distinct reached verdict
  exact ⟨distinct, reached, verdict⟩

/-- In a certificate whose senders differ, both tallies see every Commit. -/
theorem tallies_see_all {worker : Worker} (distinct : CommitsDistinct worker) (id : MsgID) :
    counted Commit.sender (certAt worker id).commit = (certAt worker id).commit ∧
      committedVotes (certAt worker id) id.v id.n = (certAt worker id).commit := by
  have all := counted_all Commit.sender _ (distinct.distinct id)
  refine ⟨all, ?_⟩
  have matching : (certAt worker id).commit.filter (matchesCommit id.v id.n) =
      (certAt worker id).commit := by
    apply List.filter_eq_self.mpr
    intro vote member
    have key := (distinct.lawful.commits id vote member).2
    simp [matchesCommit, key]
  unfold committedVotes
  rw [matching, all]

theorem positive_votes {worker : Worker} {cert : MsgCert}
    (verdict : getValidResFromCommit worker cert = .possitive) :
    getQuorum worker ≤
      (((counted Commit.sender cert.commit).filter fun com => com.vr.opinion).length : Int) := by
  unfold getValidResFromCommit at verdict
  dsimp only at verdict
  split_ifs at verdict with enough
  rw [← List.countP_eq_length_filter]
  exact enough

theorem posted_checkpoint {worker : Worker} {commit : Commit} {chkpt : Checkpoint}
    (posted : .postCheckpoint chkpt ∈ (recvCommit worker commit).effects) :
    chkpt.blockHeight = commit.vr.blockHeight ∧ chkpt.blockHash = commit.vr.blockHash := by
  obtain ⟨before, effects, after, _, action, member, _⟩ :=
    chain_output (fun _ => True) trivial (fun _ _ _ _ _ => trivial)
      (recv_commit_performs 0 worker commit) _ posted
  cases action with
  | decidePositive commit request _ _ _ _ _ _ =>
      obtain rfl : chkpt = checkpointFor before commit := by simpa using member
      exact ⟨rfl, rfl⟩
  | decideNegative commit _ _ _ =>
      obtain rfl : chkpt = checkpointFor before commit := by simpa using member
      exact ⟨rfl, rfl⟩
  | _ => simp at member

theorem committed_slot {worker : Worker} (distinct : CommitsDistinct worker) {digest : String}
    {v reqID : UInt64} (reached : committed worker digest v reqID = true) :
    ∃ preprep request, (certAt worker ⟨v, reqID⟩).prePrepare = some preprep ∧
      preprep.request = some request := by
  have tracked := (prepared_tally (committed_tally reached).1).1
  obtain ⟨preprep, slot, _⟩ := pre_prepared_slot tracked
  obtain ⟨request, carried⟩ := Option.isSome_iff_exists.mp (distinct.lawful.slots _ _ slot)
  exact ⟨preprep, request, slot, carried⟩

theorem sound_of_commits_agree {worker : Worker} {commit : Commit}
    (distinct : CommitsDistinct (withCommit worker commit))
    (reached : committed (withCommit worker commit) commit.requestDigest commit.view
      commit.reqID = true)
    (verdict : getValidResFromCommit (withCommit worker commit)
      (certAt (withCommit worker commit) ⟨commit.view, commit.reqID⟩) = .possitive)
    (agree : CommitsAgree worker commit) : SoundCertificate worker commit := by
  obtain ⟨preprep, request, slot, carried⟩ := committed_slot distinct reached
  have cert := cert_at_with_commit worker commit
  have every : ∀ vote ∈ (certAt (withCommit worker commit) ⟨commit.view, commit.reqID⟩).commit,
      NamesProposal preprep request vote := by
    rw [cert] at slot ⊢
    exact agree preprep request slot carried
  obtain ⟨countedAll, committedAll⟩ := tallies_see_all distinct ⟨commit.view, commit.reqID⟩
  refine ⟨preprep, request, slot, carried, ?_, ?_, ?_, ?_⟩
  · have enough := positive_votes verdict
    rw [countedAll] at enough
    refine ⟨_, List.filter_sublist, ?_, enough, ?_⟩
    · exact (distinct.distinct _).sublist (List.filter_sublist.map _)
    · intro vote member
      obtain ⟨inside, opinion⟩ := List.mem_filter.mp member
      exact ⟨opinion, every vote inside⟩
  · rw [committedAll]
    exact every
  · rw [countedAll]
    exact every
  · intro chkpt posted
    obtain ⟨height, hash⟩ := posted_checkpoint posted
    have own := every commit (by rw [cert]; simp)
    rw [height, hash]
    exact own.2

theorem commits_agree_of_sound {worker : Worker} {commit : Commit}
    (distinct : CommitsDistinct (withCommit worker commit))
    (sound : SoundCertificate worker commit) : CommitsAgree worker commit := by
  obtain ⟨preprep, request, slot, carried, _, _, every, _⟩ := sound
  have cert := cert_at_with_commit worker commit
  rw [(tallies_see_all distinct ⟨commit.view, commit.reqID⟩).1, cert] at every
  rw [cert] at slot
  intro other carriedRequest otherSlot otherCarried
  obtain rfl : preprep = other := Option.some.inj (slot.symm.trans otherSlot)
  obtain rfl : request = carriedRequest := Option.some.inj (carried.symm.trans otherCarried)
  exact every

/-- In a reachable state, a Commit that takes the positive branch does so on a
sound certificate exactly when all Commits collected are about the proposal. -/
theorem positive_certificate_sound_iff (nodeID leader : String) (peersnum : Int)
    (events : List Event) (last : Replica)
    (run : Run step (fun _ _ => True) (boot nodeID leader peersnum) events last)
    (commit : Commit) (decision : Decision)
    (taken : .insertChain decision ∈ (recvCommit last.worker commit).effects) :
    SoundCertificate last.worker commit ↔ CommitsAgree last.worker commit := by
  obtain ⟨distinct, reached, verdict⟩ := positive_branch (run_commits_distinct run) taken
  exact ⟨commits_agree_of_sound distinct, sound_of_commits_agree distinct reached verdict⟩

/-- A node of four collects three Prepares and two Commits for the leader's
request at height 2. -/
def nearlyCommittedSchedule : List Event :=
  [.invoke 0 (.recvPrePrepare
      (prePrepareFor "a" 2 "2" (leaderRequest "a" 2 (plainBlock 2 0)))),
    .invoke 1 (.recvPrepare (voteFor "a" 2 "2")),
    .invoke 2 (.recvPrepare (voteFor "c" 2 "2")),
    .invoke 3 (.recvPrepare (voteFor "d" 2 "2")),
    .invoke 4 (.recvCommit (commitVote "a" 2 "2" 2 "2")),
    .invoke 5 (.recvCommit (commitVote "c" 2 "2" 2 "2"))]

def agreesDecision : Decision :=
  ⟨commitVote "d" 2 "2" 2 "2", leaderRequest "a" 2 (plainBlock 2 0), some (plainBlock 2 0)⟩

theorem positive_certificate_sound_iff_when_commits_agree :
    ∃ last, Run step (fun _ _ => True) (boot "b" "a" 4) nearlyCommittedSchedule last ∧
      .insertChain agreesDecision ∈
        (recvCommit last.worker (commitVote "d" 2 "2" 2 "2")).effects ∧
      CommitsAgree last.worker (commitVote "d" 2 "2" 2 "2") ∧
      SoundCertificate last.worker (commitVote "d" 2 "2" 2 "2") := by
  obtain ⟨last, run, passed⟩ : ∃ last,
      Run step (fun _ _ => True) (boot "b" "a" 4) nearlyCommittedSchedule last ∧
        decide (.insertChain agreesDecision ∈
            (recvCommit last.worker (commitVote "d" 2 "2" 2 "2")).effects ∧
          (certAt last.worker ⟨1, 2⟩).prePrepare =
            some (prePrepareFor "a" 2 "2" (leaderRequest "a" 2 (plainBlock 2 0))) ∧
          (certAt last.worker ⟨1, 2⟩).commit =
            [commitVote "a" 2 "2" 2 "2", commitVote "c" 2 "2" 2 "2"]) = true :=
    run_reaching (fun _ _ => true)
      (fun last : Replica => decide (.insertChain agreesDecision ∈
          (recvCommit last.worker (commitVote "d" 2 "2" 2 "2")).effects ∧
        (certAt last.worker ⟨1, 2⟩).prePrepare =
          some (prePrepareFor "a" 2 "2" (leaderRequest "a" 2 (plainBlock 2 0))) ∧
        (certAt last.worker ⟨1, 2⟩).commit =
          [commitVote "a" 2 "2" 2 "2", commitVote "c" 2 "2" 2 "2"]))
      (fun _ _ _ => trivial) (by decide +kernel)
  obtain ⟨taken, slot, votes⟩ := of_decide_eq_true passed
  have agree : CommitsAgree last.worker (commitVote "d" 2 "2" 2 "2") := by
    intro preprep request filled carried
    obtain rfl := Option.some.inj (slot.symm.trans filled)
    obtain rfl := Option.some.inj carried
    rw [show (certAt last.worker ⟨(commitVote "d" 2 "2" 2 "2").view,
      (commitVote "d" 2 "2" 2 "2").reqID⟩).commit = _ from votes]
    decide
  exact ⟨last, run, taken, agree,
    (positive_certificate_sound_iff "b" "a" 4 _ last run _ _ taken).mpr agree⟩

/-- The third Commit names height 7 and hash "7", and the node acts on it. -/
theorem positive_certificate_on_mixed_commits :
    ∃ last, Run step (fun _ _ => True) (boot "b" "a" 4) nearlyCommittedSchedule last ∧
      (∃ decision, .insertChain decision ∈
        (recvCommit last.worker (commitVote "d" 2 "2" 7 "7")).effects) ∧
      .postCheckpoint ⟨"b", 7, 2, "7"⟩ ∈
        (recvCommit last.worker (commitVote "d" 2 "2" 7 "7")).effects ∧
      ¬SoundCertificate last.worker (commitVote "d" 2 "2" 7 "7") := by
  let decision : Decision :=
    ⟨commitVote "d" 2 "2" 7 "7", leaderRequest "a" 2 (plainBlock 2 0), some (plainBlock 2 0)⟩
  obtain ⟨last, run, passed⟩ : ∃ last,
      Run step (fun _ _ => True) (boot "b" "a" 4) nearlyCommittedSchedule last ∧
        decide (.insertChain decision ∈
            (recvCommit last.worker (commitVote "d" 2 "2" 7 "7")).effects ∧
          .postCheckpoint ⟨"b", 7, 2, "7"⟩ ∈
            (recvCommit last.worker (commitVote "d" 2 "2" 7 "7")).effects ∧
          (certAt last.worker ⟨1, 2⟩).prePrepare =
            some (prePrepareFor "a" 2 "2" (leaderRequest "a" 2 (plainBlock 2 0)))) = true :=
    run_reaching (fun _ _ => true)
      (fun last : Replica => decide (.insertChain decision ∈
          (recvCommit last.worker (commitVote "d" 2 "2" 7 "7")).effects ∧
        .postCheckpoint ⟨"b", 7, 2, "7"⟩ ∈
          (recvCommit last.worker (commitVote "d" 2 "2" 7 "7")).effects ∧
        (certAt last.worker ⟨1, 2⟩).prePrepare =
          some (prePrepareFor "a" 2 "2" (leaderRequest "a" 2 (plainBlock 2 0)))))
      (fun _ _ _ => trivial) (by decide +kernel)
  obtain ⟨taken, posted, slot⟩ := of_decide_eq_true passed
  refine ⟨last, run, ⟨decision, taken⟩, posted, ?_⟩
  rintro ⟨preprep, request, filled, carried, _, _, _, checkpointed⟩
  rw [cert_at_with_commit] at filled
  obtain rfl := Option.some.inj (slot.symm.trans filled)
  obtain rfl := Option.some.inj carried
  have height := (checkpointed _ posted).1
  exact absurd height (by decide)

end CommitCertificate

end PbftBlock.CertificateVotes
