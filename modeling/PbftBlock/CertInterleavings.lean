import PbftBlock.RejectedMessages

/-!
# Handlers that run at the same time

Every message is handled in a goroutine of its own, and the vote handlers hold
`certMux` only for single steps: `getCert` looks the certificate up under the read
lock and inserts a new one under the write lock, the scan for an earlier vote of
the sender takes no lock, and the append takes the write lock again. Here the
certificates are objects in memory, `certStore` holds references to them, and any
number of invocations take their steps in any order.
-/

namespace PbftBlock.CertInterleavings

open PbftBlock.ConsensusMessages PbftBlock.ConsensusWorker PbftBlock.ConsensusBasics
open PbftBlock.ConsensusHandlers PbftBlock.NodeMachine PbftBlock.NodeContents
open PbftBlock.HandlerActions (withCommit)
open PbftBlock.CommitOncePerHeight PbftBlock.PrepareDigests PbftBlock.CertificateVotes
open PbftBlock.StoreKeys PbftBlock.RejectedMessages
open PbftBlock.Library.FiniteMaps PbftBlock.Library.GuardedRuns

set_option autoImplicit false

/-- What `RecvPrepare` and `RecvCommit` differ in: the votes they put into a
certificate. -/
structure VoteKind where
  Vote : Type
  sender : Vote → String
  votes : MsgCert → List Vote
  add : MsgCert → Vote → MsgCert
  votes_new : votes {} = []
  votes_add : ∀ cert vote, votes (add cert vote) = votes cert ++ [vote]

def prepareKind : VoteKind where
  Vote := Prepare
  sender := Prepare.sender
  votes := MsgCert.prepare
  add cert prep := { cert with prepare := cert.prepare ++ [prep] }
  votes_new := rfl
  votes_add _ _ := rfl

def commitKind : VoteKind where
  Vote := Commit
  sender := Commit.sender
  votes := MsgCert.commit
  add cert commit := { cert with commit := cert.commit ++ [commit] }
  votes_new := rfl
  votes_add _ _ := rfl

/-- The certificates allocated so far, and the references in `certStore`. -/
structure CertMemory where
  objects : List MsgCert
  certStore : FiniteMap MsgID Nat
  allocated : ∀ id ref, certStore.lookup id = some ref → ref < objects.length

section Objects

variable {kind : VoteKind} {memory : CertMemory} {id : MsgID} {ref : Nat} {cert : MsgCert}

def objectAt (memory : CertMemory) (ref : Nat) : MsgCert := memory.objects.getD ref {}

def insertCert (memory : CertMemory) (id : MsgID) : CertMemory where
  objects := memory.objects ++ [{}]
  certStore := memory.certStore.insert id memory.objects.length
  allocated key ref found := by
    rw [lookup_insert_eq] at found
    rw [List.length_append, List.length_singleton]
    split_ifs at found
    · obtain rfl := Option.some.inj found
      omega
    · have old := memory.allocated key ref found
      omega

def writeObject (memory : CertMemory) (ref : Nat) (cert : MsgCert) : CertMemory where
  objects := memory.objects.set ref cert
  certStore := memory.certStore
  allocated key ref found := by
    rw [List.length_set]
    exact memory.allocated key ref found

def storedVotes (kind : VoteKind) (memory : CertMemory) (id : MsgID) : List kind.Vote :=
  ((memory.certStore.lookup id).map fun ref => kind.votes (objectAt memory ref)).getD []

def storedSenders (kind : VoteKind) (memory : CertMemory) (id : MsgID) : List String :=
  (storedVotes kind memory id).map kind.sender

theorem stored_votes_at (found : memory.certStore.lookup id = some ref) :
    storedVotes kind memory id = kind.votes (objectAt memory ref) := by
  unfold storedVotes
  rw [found]
  rfl

theorem stored_votes_absent (absent : memory.certStore.lookup id = none) :
    storedVotes kind memory id = [] := by
  unfold storedVotes
  rw [absent]
  rfl

theorem object_at_written (inside : ref < memory.objects.length) :
    objectAt (writeObject memory ref cert) ref = cert := by
  unfold objectAt writeObject
  simp [inside]

theorem insert_cert_lookup (memory : CertMemory) (id : MsgID) :
    (insertCert memory id).certStore.lookup id = some memory.objects.length :=
  lookup_insert_self _ _ _

theorem stored_votes_inserted (memory : CertMemory) (id : MsgID) :
    storedVotes kind (insertCert memory id) id = [] := by
  rw [stored_votes_at (insert_cert_lookup memory id)]
  have fresh : objectAt (insertCert memory id) memory.objects.length = {} := by
    unfold objectAt insertCert
    simp
  rw [fresh]
  exact kind.votes_new

theorem stored_votes_appended (found : memory.certStore.lookup id = some ref) (vote : kind.Vote) :
    storedVotes kind (writeObject memory ref (kind.add (objectAt memory ref) vote)) id =
      storedVotes kind memory id ++ [vote] := by
  have still : (writeObject memory ref (kind.add (objectAt memory ref) vote)).certStore.lookup id =
      some ref := found
  rw [stored_votes_at still, object_at_written (memory.allocated id ref found), kind.votes_add,
    stored_votes_at found]

end Objects

/-- A vote that is handled, with the outcome of the other tests of its handler:
those in front of `getCert`, and those between the scan and the append. -/
structure Attempt (kind : VoteKind) where
  vote : kind.Vote
  heard : Bool
  wanted : Bool

/-- Where an invocation stands, with the certificate it got from `getCert`. -/
inductive Stage where
  | looking
  | inserting
  | scanning (ref : Nat)
  | appending (ref : Nat)
  | finished
deriving DecidableEq

structure Invocation (kind : VoteKind) where
  attempt : Attempt kind
  stage : Stage

structure Shared (kind : VoteKind) where
  memory : CertMemory
  calls : List (Invocation kind)

def advance (kind : VoteKind) (id : MsgID) (memory : CertMemory) (attempt : Attempt kind) :
    Stage → Option (CertMemory × Stage)
  | .looking =>
      if !attempt.heard then some (memory, .finished)
      else
        match memory.certStore.lookup id with
        | some ref => some (memory, .scanning ref)
        | none => some (memory, .inserting)
  | .inserting => some (insertCert memory id, .scanning memory.objects.length)
  | .scanning ref =>
      if (kind.votes (objectAt memory ref)).any fun vote =>
          kind.sender vote == kind.sender attempt.vote then
        some (memory, .finished)
      else if !attempt.wanted then some (memory, .finished)
      else some (memory, .appending ref)
  | .appending ref =>
      some (writeObject memory ref (kind.add (objectAt memory ref) attempt.vote), .finished)
  | .finished => none

def interleave (kind : VoteKind) (id : MsgID) (shared : Shared kind) (index : Nat) :
    Option (Shared kind) :=
  (shared.calls[index]?).bind fun call =>
    (advance kind id shared.memory call.attempt call.stage).map fun next =>
      ⟨next.1, shared.calls.set index ⟨call.attempt, next.2⟩⟩

def startAll {kind : VoteKind} (memory : CertMemory) (attempts : List (Attempt kind)) :
    Shared kind :=
  ⟨memory, attempts.map fun attempt => ⟨attempt, .looking⟩⟩

section Alone

variable {kind : VoteKind} {id : MsgID} {memory : CertMemory} {attempt : Attempt kind}

def runAlone (kind : VoteKind) (id : MsgID) (attempt : Attempt kind) :
    Nat → CertMemory → Stage → CertMemory
  | 0, memory, _ => memory
  | fuel + 1, memory, stage =>
      match advance kind id memory attempt stage with
      | none => memory
      | some next => runAlone kind id attempt fuel next.1 next.2

theorem run_alone_finished (fuel : Nat) :
    runAlone kind id attempt fuel memory .finished = memory := by
  cases fuel <;> rfl

theorem run_alone_scanning (fuel : Nat) {ref : Nat}
    (found : memory.certStore.lookup id = some ref) :
    storedVotes kind (runAlone kind id attempt (fuel + 2) memory (.scanning ref)) id =
      if kind.sender attempt.vote ∉ storedSenders kind memory id ∧ attempt.wanted = true then
        storedVotes kind memory id ++ [attempt.vote]
      else storedVotes kind memory id := by
  have scan : (kind.votes (objectAt memory ref)).any
      (fun vote => kind.sender vote == kind.sender attempt.vote) = true ↔
        kind.sender attempt.vote ∈ storedSenders kind memory id := by
    rw [storedSenders, stored_votes_at found]
    simp
  by_cases repeated : kind.sender attempt.vote ∈ storedSenders kind memory id
  · simp [runAlone, advance, scan.mpr repeated, repeated]
  · have fresh := repeated
    rw [← scan, Bool.not_eq_true] at repeated
    cases wanted : attempt.wanted with
    | false => simp [runAlone, advance, repeated, wanted]
    | true =>
        rw [if_pos ⟨fresh, rfl⟩, ← stored_votes_appended found]
        simp [runAlone, advance, repeated, wanted, run_alone_finished]

theorem run_alone_votes (kind : VoteKind) (id : MsgID) (memory : CertMemory)
    (attempt : Attempt kind) :
    storedVotes kind (runAlone kind id attempt 4 memory .looking) id =
      if attempt.heard = true ∧ kind.sender attempt.vote ∉ storedSenders kind memory id ∧
          attempt.wanted = true then
        storedVotes kind memory id ++ [attempt.vote]
      else storedVotes kind memory id := by
  cases heard : attempt.heard with
  | false => simp [runAlone, advance, heard]
  | true =>
      simp only [true_and]
      cases present : memory.certStore.lookup id with
      | some ref =>
          have looked : runAlone kind id attempt 4 memory .looking =
              runAlone kind id attempt 3 memory (.scanning ref) := by
            simp [runAlone, advance, heard, present]
          rw [looked, run_alone_scanning 1 present]
      | none =>
          have opened : runAlone kind id attempt 4 memory .looking =
              runAlone kind id attempt 2 (insertCert memory id)
                (.scanning memory.objects.length) := by
            simp [runAlone, advance, heard, present]
          rw [opened, run_alone_scanning 0 (insert_cert_lookup memory id), storedSenders,
            storedSenders, stored_votes_inserted, stored_votes_absent present]

def prepareTests (worker : Worker) (prep : Prepare) : Attempt prepareKind where
  vote := prep
  heard := inV worker prep.view && worker.ready
  wanted := (getRequestFromStore worker prep.requestDigest).any fun request =>
    !decide (request.blockHeight ≤ worker.currentBlock) &&
      !(worker.commitStore.lookup request.blockHeight).isSome &&
      !(prepared (getCert worker prep.view prep.reqID) prep.requestDigest prep.view prep.reqID &&
        (certAt worker ⟨prep.view, prep.reqID⟩).sentCommit)

/-- The tests of `RecvCommit`; all of them come before `getCert`. -/
def commitTests (worker : Worker) (commit : Commit) : Attempt commitKind where
  vote := commit
  heard := inV worker commit.view && worker.ready &&
    !decide (commit.vr.blockHeight ≤ worker.currentBlock)
  wanted := true

theorem reach_prepared_votes (worker : Worker) (prep : Prepare) (request : Request)
    (again : String) (transfer : List Effect) (id : MsgID) :
    (certAt (reachPrepared worker prep request again transfer).worker id).prepare =
      (certAt worker id).prepare := by
  unfold reachPrepared
  split_ifs
  · rfl
  · cases selectBlock worker request.blockHeight request.blockHash request with
    | none => rfl
    | some block =>
        dsimp only
        split_ifs
        · rfl
        · refine (congrArg MsgCert.prepare (cert_at_modify_cert _ _ id _)).trans ?_
          split_ifs with here
          · rw [here]
            rfl
          · rfl

theorem count_prepare_votes (worker : Worker) (prep : Prepare) (request : Request)
    (again : String) (transfer : List Effect) :
    (certAt (countPrepare worker prep request again transfer).worker
        ⟨prep.view, prep.reqID⟩).prepare =
      (certAt worker ⟨prep.view, prep.reqID⟩).prepare ++ [prep] := by
  have appended : (certAt (modifyCert worker ⟨prep.view, prep.reqID⟩ fun cert =>
      { cert with prepare := cert.prepare ++ [prep] }) ⟨prep.view, prep.reqID⟩).prepare =
        (certAt worker ⟨prep.view, prep.reqID⟩).prepare ++ [prep] := by
    rw [cert_at_modify_cert, if_pos rfl]
  unfold countPrepare
  dsimp only
  split_ifs
  · rw [reach_prepared_votes]
    exact appended
  · exact appended

theorem recv_prepare_votes (worker : Worker) (prep : Prepare) :
    (certAt (recvPrepare worker prep).worker ⟨prep.view, prep.reqID⟩).prepare =
      if (prepareTests worker prep).heard = true ∧
          prep.sender ∉ (certAt worker ⟨prep.view, prep.reqID⟩).prepare.map Prepare.sender ∧
          (prepareTests worker prep).wanted = true then
        (certAt worker ⟨prep.view, prep.reqID⟩).prepare ++ [prep]
      else (certAt worker ⟨prep.view, prep.reqID⟩).prepare := by
  have opened := cert_at_get_cert worker prep.view prep.reqID ⟨prep.view, prep.reqID⟩
  have refused : ∀ text,
      (certAt (failed (getCert worker prep.view prep.reqID) text []).worker
        ⟨prep.view, prep.reqID⟩).prepare = (certAt worker ⟨prep.view, prep.reqID⟩).prepare :=
    fun _ => congrArg MsgCert.prepare opened
  unfold recvPrepare
  split
  · rename_i outside
    rw [if_neg (by simp_all [prepareTests])]
    rfl
  split
  · rename_i unready
    rw [if_neg (by simp_all [prepareTests])]
    rfl
  rename_i current ready
  have heard : (prepareTests worker prep).heard = true := by simp_all [prepareTests]
  dsimp only
  rw [opened]
  split
  · rename_i repeated
    rw [if_neg (by simp_all), refused]
  rename_i fresh
  have unseen : prep.sender ∉
      (certAt worker ⟨prep.view, prep.reqID⟩).prepare.map Prepare.sender := by
    simpa using fresh
  have store : getRequestFromStore (getCert worker prep.view prep.reqID) prep.requestDigest =
      getRequestFromStore worker prep.requestDigest := rfl
  rw [store]
  cases held : getRequestFromStore worker prep.requestDigest with
  | none => rw [if_neg (by simp [prepareTests, held]), refused]
  | some request =>
      have wanted : (prepareTests worker prep).wanted =
          (!decide (request.blockHeight ≤ worker.currentBlock) &&
            !(worker.commitStore.lookup request.blockHeight).isSome &&
            !(prepared (getCert worker prep.view prep.reqID) prep.requestDigest prep.view
                prep.reqID && (certAt worker ⟨prep.view, prep.reqID⟩).sentCommit)) := by
        simp only [prepareTests, held, Option.any_some]
      dsimp only
      rw [wanted]
      split
      · rename_i low
        have onchain : request.blockHeight ≤ worker.currentBlock := low
        rw [refused, if_neg (by simp [onchain])]
      split
      · rename_i sent
        have recorded : (worker.commitStore.lookup request.blockHeight).isSome = true := sent
        rw [refused, if_neg (by simp [recorded])]
      split
      · rename_i both
        rw [refused, if_neg (by simp only [both]; simp)]
      · rename_i above unsent undecided
        have offchain : ¬request.blockHeight ≤ worker.currentBlock := above
        have unrecorded : ¬(worker.commitStore.lookup request.blockHeight).isSome = true := unsent
        rw [count_prepare_votes, opened, if_pos]
        refine ⟨heard, unseen, ?_⟩
        rw [Bool.not_eq_true] at undecided unrecorded
        simp only [undecided, unrecorded, offchain, decide_false, Bool.not_false, Bool.and_self]

theorem recv_commit_votes (worker : Worker) (commit : Commit)
    (few : committed (withCommit worker commit) commit.requestDigest commit.view commit.reqID =
      false) :
    (certAt (recvCommit worker commit).worker ⟨commit.view, commit.reqID⟩).commit =
      if (commitTests worker commit).heard = true ∧
          commit.sender ∉ (certAt worker ⟨commit.view, commit.reqID⟩).commit.map Commit.sender ∧
          (commitTests worker commit).wanted = true then
        (certAt worker ⟨commit.view, commit.reqID⟩).commit ++ [commit]
      else (certAt worker ⟨commit.view, commit.reqID⟩).commit := by
  have opened := cert_at_get_cert worker commit.view commit.reqID ⟨commit.view, commit.reqID⟩
  unfold recvCommit
  split
  · rename_i outside
    rw [if_neg (by simp_all [commitTests])]
    rfl
  split
  · rename_i unready
    rw [if_neg (by simp_all [commitTests])]
    rfl
  split
  · rename_i low
    rw [if_neg (by simp [commitTests, low])]
    rfl
  rename_i current ready above
  have heard : (commitTests worker commit).heard = true := by simp_all [commitTests]
  dsimp only
  rw [opened]
  split
  · rename_i repeated
    rw [if_neg (by simp_all)]
    exact congrArg MsgCert.commit opened
  · rename_i fresh
    rw [if_neg, if_pos]
    · exact congrArg MsgCert.commit (cert_at_with_commit worker commit)
    · exact ⟨heard, by simpa using fresh, rfl⟩
    · rw [Bool.not_eq_true]
      exact few

theorem recv_prepare_alone (worker : Worker) (prep : Prepare) (memory : CertMemory)
    (same : storedVotes prepareKind memory ⟨prep.view, prep.reqID⟩ =
      (certAt worker ⟨prep.view, prep.reqID⟩).prepare) :
    storedVotes prepareKind (runAlone prepareKind ⟨prep.view, prep.reqID⟩
        (prepareTests worker prep) 4 memory .looking) ⟨prep.view, prep.reqID⟩ =
      (certAt (recvPrepare worker prep).worker ⟨prep.view, prep.reqID⟩).prepare := by
  rw [run_alone_votes, storedSenders, same]
  exact (recv_prepare_votes worker prep).symm

/-- `RecvCommit` is its invocation run alone, as long as it does not reach the
quorum and remove the certificate. -/
theorem recv_commit_alone (worker : Worker) (commit : Commit) (memory : CertMemory)
    (same : storedVotes commitKind memory ⟨commit.view, commit.reqID⟩ =
      (certAt worker ⟨commit.view, commit.reqID⟩).commit)
    (few : committed (withCommit worker commit) commit.requestDigest commit.view commit.reqID =
      false) :
    storedVotes commitKind (runAlone commitKind ⟨commit.view, commit.reqID⟩
        (commitTests worker commit) 4 memory .looking) ⟨commit.view, commit.reqID⟩ =
      (certAt (recvCommit worker commit).worker ⟨commit.view, commit.reqID⟩).commit := by
  rw [run_alone_votes, storedSenders, same]
  exact (recv_commit_votes worker commit few).symm

end Alone

/-- Nothing came between an insertion and its lookup, or between an append and
its scan. -/
structure Undisturbed (kind : VoteKind) (id : MsgID) (shared : Shared kind) (index : Nat) :
    Prop where
  inserts : ∀ call, shared.calls[index]? = some call → call.stage = .inserting →
    shared.memory.certStore.lookup id = none
  appends : ∀ call ref, shared.calls[index]? = some call → call.stage = .appending ref →
    ∀ vote ∈ kind.votes (objectAt shared.memory ref),
      kind.sender vote ≠ kind.sender call.attempt.vote

def Passes {kind : VoteKind} (attempt : Attempt kind) : Prop :=
  attempt.heard = true ∧ attempt.wanted = true

section Interleavings

variable {kind : VoteKind} {id : MsgID} {memory : CertMemory} {shared after : Shared kind}
  {attempts : List (Attempt kind)} {index : Nat}

inductive StepEffect (kind : VoteKind) (id : MsgID) (memory : CertMemory) (attempt : Attempt kind) :
    Stage → CertMemory → Stage → Prop where
  | unheard (refused : attempt.heard = false) : StepEffect kind id memory attempt .looking memory .finished
  | found (ref : Nat) (heard : attempt.heard = true)
      (present : memory.certStore.lookup id = some ref) :
      StepEffect kind id memory attempt .looking memory (.scanning ref)
  | missed (heard : attempt.heard = true) (absent : memory.certStore.lookup id = none) :
      StepEffect kind id memory attempt .looking memory .inserting
  | inserted : StepEffect kind id memory attempt .inserting (insertCert memory id)
      (.scanning memory.objects.length)
  | duplicate (ref : Nat) (vote : kind.Vote) (member : vote ∈ kind.votes (objectAt memory ref))
      (same : kind.sender vote = kind.sender attempt.vote) :
      StepEffect kind id memory attempt (.scanning ref) memory .finished
  | unwanted (ref : Nat) (refused : attempt.wanted = false) :
      StepEffect kind id memory attempt (.scanning ref) memory .finished
  | cleared (ref : Nat) (wanted : attempt.wanted = true) :
      StepEffect kind id memory attempt (.scanning ref) memory (.appending ref)
  | appended (ref : Nat) : StepEffect kind id memory attempt (.appending ref)
      (writeObject memory ref (kind.add (objectAt memory ref) attempt.vote)) .finished

theorem advance_effect {attempt : Attempt kind} {stage next : Stage} {written : CertMemory}
    (advanced : advance kind id memory attempt stage = some (written, next)) :
    StepEffect kind id memory attempt stage written next := by
  cases stage with
  | looking =>
      simp only [advance, Bool.not_eq_true'] at advanced
      split at advanced
      · obtain ⟨rfl, rfl⟩ := Prod.mk.inj (Option.some.inj advanced)
        exact .unheard ‹_›
      · have heard : attempt.heard = true := by simpa using ‹¬attempt.heard = false›
        split at advanced
        · obtain ⟨rfl, rfl⟩ := Prod.mk.inj (Option.some.inj advanced)
          exact .found _ heard ‹_›
        · obtain ⟨rfl, rfl⟩ := Prod.mk.inj (Option.some.inj advanced)
          exact .missed heard ‹_›
  | inserting =>
      obtain ⟨rfl, rfl⟩ := Prod.mk.inj (Option.some.inj advanced)
      exact .inserted
  | scanning ref =>
      simp only [advance, Bool.not_eq_true', List.any_eq_true, beq_iff_eq] at advanced
      split at advanced
      · rename_i repeated
        obtain ⟨rfl, rfl⟩ := Prod.mk.inj (Option.some.inj advanced)
        obtain ⟨vote, member, same⟩ := repeated
        exact .duplicate ref vote member same
      · split at advanced
        · obtain ⟨rfl, rfl⟩ := Prod.mk.inj (Option.some.inj advanced)
          exact .unwanted ref ‹_›
        · obtain ⟨rfl, rfl⟩ := Prod.mk.inj (Option.some.inj advanced)
          exact .cleared ref (by simpa using ‹¬attempt.wanted = false›)
  | appending ref =>
      obtain ⟨rfl, rfl⟩ := Prod.mk.inj (Option.some.inj advanced)
      exact .appended ref
  | finished => cases advanced

theorem interleave_effect (stepped : interleave kind id shared index = some after) :
    ∃ call next, shared.calls[index]? = some call ∧
      StepEffect kind id shared.memory call.attempt call.stage after.memory next ∧
      after.calls = shared.calls.set index ⟨call.attempt, next⟩ := by
  obtain ⟨call, present, rest⟩ := Option.bind_eq_some_iff.mp stepped
  obtain ⟨⟨written, next⟩, advanced, rfl⟩ := Option.map_eq_some_iff.mp rest
  exact ⟨call, next, present, advance_effect advanced, rfl⟩

theorem attempts_after_set {calls : List (Invocation kind)} {call : Invocation kind}
    (present : calls[index]? = some call) (next : Stage) :
    (calls.set index ⟨call.attempt, next⟩).map Invocation.attempt =
      calls.map Invocation.attempt := by
  apply List.ext_getElem?
  intro position
  rw [List.getElem?_map, List.getElem?_map, List.getElem?_set]
  split_ifs with here inside
  · rw [← here, present]
    rfl
  · rw [← here, List.getElem?_eq_none (by omega)]
  · rfl

def Stage.ref : Stage → Option Nat
  | .scanning ref => some ref
  | .appending ref => some ref
  | _ => none

/-- The state of an interleaving in which nothing came between: one certificate
object, one vote per sender, every vote that is through is in it. -/
structure InOrder (kind : VoteKind) (id : MsgID) (initial : List kind.Vote)
    (attempts : List (Attempt kind)) (shared : Shared kind) : Prop where
  same : shared.calls.map Invocation.attempt = attempts
  refs : ∀ call ∈ shared.calls, ∀ ref, call.stage.ref = some ref →
    shared.memory.certStore.lookup id = some ref
  heard : ∀ call ∈ shared.calls, call.stage = .inserting ∨ call.stage.ref.isSome = true →
    call.attempt.heard = true
  wanted : ∀ call ∈ shared.calls, ∀ ref, call.stage = .appending ref →
    call.attempt.wanted = true
  distinct : (storedSenders kind shared.memory id).Nodup
  counted : ∀ call ∈ shared.calls, call.stage = .finished → Passes call.attempt →
    kind.sender call.attempt.vote ∈ storedSenders kind shared.memory id
  sources : ∀ vote ∈ storedVotes kind shared.memory id,
    vote ∈ initial ∨ ∃ attempt ∈ attempts, Passes attempt ∧ attempt.vote = vote
  kept : ∀ vote ∈ initial, vote ∈ storedVotes kind shared.memory id

section OneStep

variable {call : Invocation kind} {next : Stage} {initial : List kind.Vote}
  {written : CertMemory}

theorem effect_keeps_ref
    (effect : StepEffect kind id shared.memory call.attempt call.stage written next)
    (present : shared.calls[index]? = some call) (calm : Undisturbed kind id shared index)
    {ref : Nat} (found : shared.memory.certStore.lookup id = some ref) :
    written.certStore.lookup id = some ref := by
  obtain ⟨attempt, stage⟩ := call
  cases effect with
  | inserted =>
      rw [calm.inserts _ present rfl] at found
      cases found
  | _ => exact found

theorem effect_votes (prior : InOrder kind id initial attempts shared)
    (effect : StepEffect kind id shared.memory call.attempt call.stage written next)
    (present : shared.calls[index]? = some call) (calm : Undisturbed kind id shared index) :
    storedVotes kind written id = storedVotes kind shared.memory id ∨
      Passes call.attempt ∧
        kind.sender call.attempt.vote ∉ storedSenders kind shared.memory id ∧
        storedVotes kind written id = storedVotes kind shared.memory id ++ [call.attempt.vote] := by
  have member := List.mem_of_getElem? present
  obtain ⟨attempt, stage⟩ := call
  cases effect with
  | inserted =>
      left
      rw [stored_votes_inserted, stored_votes_absent (calm.inserts _ present rfl)]
  | appended ref =>
      right
      have found := prior.refs _ member ref rfl
      refine ⟨⟨prior.heard _ member (.inr rfl), prior.wanted _ member ref rfl⟩, ?_,
        stored_votes_appended found _⟩
      unfold storedSenders
      rw [stored_votes_at found, List.mem_map]
      rintro ⟨vote, earlier, equal⟩
      exact calm.appends _ ref present rfl vote earlier equal
  | _ => exact .inl rfl

theorem effect_ref (prior : InOrder kind id initial attempts shared)
    (effect : StepEffect kind id shared.memory call.attempt call.stage written next)
    (present : shared.calls[index]? = some call) {ref : Nat} (works : next.ref = some ref) :
    written.certStore.lookup id = some ref ∧ call.attempt.heard = true := by
  have member := List.mem_of_getElem? present
  obtain ⟨attempt, stage⟩ := call
  cases effect with
  | found held heard lookup =>
      obtain rfl := Option.some.inj works
      exact ⟨lookup, heard⟩
  | inserted =>
      obtain rfl := Option.some.inj works
      exact ⟨insert_cert_lookup _ id, prior.heard _ member (.inl rfl)⟩
  | cleared held wanted =>
      obtain rfl := Option.some.inj works
      exact ⟨prior.refs _ member _ rfl, prior.heard _ member (.inr rfl)⟩
  | unheard | missed | duplicate | unwanted | appended => cases works

theorem effect_inserting
    (effect : StepEffect kind id shared.memory call.attempt call.stage written next)
    (inserting : next = .inserting) : call.attempt.heard = true := by
  obtain ⟨attempt, stage⟩ := call
  subst inserting
  cases effect with
  | missed heard absent => exact heard

theorem effect_appending
    (effect : StepEffect kind id shared.memory call.attempt call.stage written next) {ref : Nat}
    (appending : next = .appending ref) : call.attempt.wanted = true := by
  obtain ⟨attempt, stage⟩ := call
  subst appending
  cases effect with
  | cleared _ wanted => exact wanted

theorem effect_counted (prior : InOrder kind id initial attempts shared)
    (effect : StepEffect kind id shared.memory call.attempt call.stage written .finished)
    (present : shared.calls[index]? = some call) (passes : Passes call.attempt) :
    kind.sender call.attempt.vote ∈ storedSenders kind written id := by
  have member := List.mem_of_getElem? present
  obtain ⟨attempt, stage⟩ := call
  cases effect with
  | unheard refused =>
      rw [passes.1] at refused
      cases refused
  | duplicate ref vote earlier equal =>
      have found := prior.refs _ member ref rfl
      rw [storedSenders, stored_votes_at found, ← equal]
      exact List.mem_map_of_mem earlier
  | unwanted ref refused =>
      rw [passes.2] at refused
      cases refused
  | appended ref =>
      have found := prior.refs _ member ref rfl
      rw [storedSenders, stored_votes_appended found, List.map_append]
      exact List.mem_append_right _ (List.mem_singleton_self _)

theorem senders_grow
    (votes : storedVotes kind written id = storedVotes kind shared.memory id ∨
      Passes call.attempt ∧
        kind.sender call.attempt.vote ∉ storedSenders kind shared.memory id ∧
        storedVotes kind written id = storedVotes kind shared.memory id ++ [call.attempt.vote]) :
    storedVotes kind shared.memory id ⊆ storedVotes kind written id := by
  rcases votes with unchanged | ⟨_, _, grown⟩
  · rw [unchanged]
    exact List.Subset.refl _
  · rw [grown]
    exact List.subset_append_left _ _

theorem interleave_in_order (calm : Undisturbed kind id shared index)
    (stepped : interleave kind id shared index = some after)
    (prior : InOrder kind id initial attempts shared) :
    InOrder kind id initial attempts after := by
  obtain ⟨call, next, present, effect, calls⟩ := interleave_effect stepped
  have member := List.mem_of_getElem? present
  have votes := effect_votes prior effect present calm
  have grow := senders_grow votes
  -- an invocation is one of the old ones, or the one that took the step
  have split : ∀ other ∈ after.calls, other ∈ shared.calls ∨ other = ⟨call.attempt, next⟩ := by
    intro other inside
    rw [calls] at inside
    exact List.mem_or_eq_of_mem_set inside
  constructor
  case same =>
    rw [calls, attempts_after_set present]
    exact prior.same
  case refs =>
    intro other inside ref works
    rcases split other inside with old | rfl
    · exact effect_keeps_ref effect present calm (prior.refs other old ref works)
    · exact (effect_ref prior effect present works).1
  case heard =>
    intro other inside busy
    rcases split other inside with old | rfl
    · exact prior.heard other old busy
    · rcases busy with inserting | works
      · change call.attempt.heard = true
        exact effect_inserting effect inserting
      · obtain ⟨ref, works⟩ := Option.isSome_iff_exists.mp works
        exact (effect_ref prior effect present works).2
  case wanted =>
    intro other inside ref appending
    rcases split other inside with old | rfl
    · exact prior.wanted other old ref appending
    · change call.attempt.wanted = true
      exact effect_appending effect appending
  case distinct =>
    rcases votes with unchanged | ⟨_, fresh, grown⟩
    · rw [storedSenders, unchanged]
      exact prior.distinct
    · rw [storedSenders, grown, List.map_append, List.map_singleton, ← List.concat_eq_append]
      exact prior.distinct.concat fresh
  case counted =>
    intro other inside finished passes
    rcases split other inside with old | rfl
    · exact List.map_subset _ grow (prior.counted other old finished passes)
    · dsimp only at finished
      subst finished
      change kind.sender call.attempt.vote ∈ _
      exact effect_counted prior effect present passes
  case sources =>
    intro vote inside
    rcases votes with unchanged | ⟨passes, _, grown⟩
    · exact prior.sources vote (unchanged ▸ inside)
    · rw [grown, List.mem_append, List.mem_singleton] at inside
      rcases inside with old | rfl
      · exact prior.sources vote old
      · refine .inr ⟨call.attempt, ?_, passes, rfl⟩
        rw [← prior.same]
        exact List.mem_map_of_mem member
  case kept =>
    intro vote first
    exact grow (prior.kept vote first)

end OneStep

theorem start_in_order (memory : CertMemory) (attempts : List (Attempt kind))
    (distinct : (storedSenders kind memory id).Nodup) :
    InOrder kind id (storedVotes kind memory id) attempts (startAll memory attempts) := by
  have looking : ∀ call ∈ (startAll memory attempts).calls, call.stage = .looking := by
    intro call member
    obtain ⟨attempt, _, rfl⟩ := List.mem_map.mp member
    rfl
  constructor
  case same =>
    unfold startAll
    rw [List.map_map]
    exact List.map_id _
  case refs =>
    intro call member ref works
    rw [looking call member] at works
    cases works
  case heard =>
    intro call member busy
    rw [looking call member] at busy
    rcases busy with inserting | works
    · cases inserting
    · cases works
  case wanted =>
    intro call member ref appending
    rw [looking call member] at appending
    cases appending
  case distinct => exact distinct
  case counted =>
    intro call member finished
    rw [looking call member] at finished
    cases finished
  case sources => exact fun vote inside => .inl inside
  case kept => exact fun vote inside => inside

/-- Any number of invocations in any order, none of whose insertions and appends
is disturbed: when all have finished, the stored certificate has one vote for each
sender that had one before or whose vote passes the other tests. -/
theorem every_sender_counted_once (kind : VoteKind) (id : MsgID) (memory : CertMemory)
    (distinct : (storedSenders kind memory id).Nodup) (attempts : List (Attempt kind))
    (order : List Nat) (last : Shared kind)
    (run : Run (interleave kind id) (Undisturbed kind id) (startAll memory attempts) order last)
    (finished : ∀ call ∈ last.calls, call.stage = .finished) :
    (storedSenders kind last.memory id).Nodup ∧
      ∀ name, name ∈ storedSenders kind last.memory id ↔
        name ∈ storedSenders kind memory id ∨
          ∃ attempt ∈ attempts, Passes attempt ∧ kind.sender attempt.vote = name := by
  have ordered : InOrder kind id (storedVotes kind memory id) attempts last :=
    run_invariant (InOrder kind id (storedVotes kind memory id) attempts)
      (fun _ _ _ calm stepped prior => interleave_in_order calm stepped prior) run
      (start_in_order memory attempts distinct)
  refine ⟨ordered.distinct, fun name => ⟨?_, ?_⟩⟩
  · intro listed
    obtain ⟨vote, inside, rfl⟩ := List.mem_map.mp listed
    rcases ordered.sources vote inside with first | ⟨attempt, member, passes, rfl⟩
    · exact .inl (List.mem_map_of_mem first)
    · exact .inr ⟨attempt, member, passes, rfl⟩
  · rintro (first | ⟨attempt, member, passes, rfl⟩)
    · exact List.map_subset _ ordered.kept first
    · rw [← ordered.same] at member
      obtain ⟨call, inside, rfl⟩ := List.mem_map.mp member
      exact ordered.counted call inside (finished call inside) passes

end Interleavings

def calmStep (kind : VoteKind) (id : MsgID) (shared : Shared kind) (index : Nat) : Bool :=
  (shared.calls[index]?).all fun call =>
    match call.stage with
    | .inserting => (shared.memory.certStore.lookup id).isNone
    | .appending ref => (kind.votes (objectAt shared.memory ref)).all fun vote =>
        kind.sender vote != kind.sender call.attempt.vote
    | _ => true

theorem undisturbed_of_test (kind : VoteKind) (id : MsgID) (shared : Shared kind) (index : Nat)
    (passed : calmStep kind id shared index = true) : Undisturbed kind id shared index := by
  constructor
  · intro call present inserting
    simpa [calmStep, present, inserting] using passed
  · intro call ref present appending
    simpa [calmStep, present, appending] using passed

def noCerts : CertMemory := ⟨[], ∅, fun _ _ found => by cases found⟩

def prepareAttempt (sender : String) : Attempt prepareKind := ⟨voteFor sender 2 "2", true, true⟩

/-- The first vote is in before the other two are looked at; the third comes from
the first sender again. -/
theorem every_sender_counted_once_for_three_prepares :
    ∃ last, Run (interleave prepareKind ⟨1, 2⟩) (Undisturbed prepareKind ⟨1, 2⟩)
        (startAll noCerts (["a", "c", "a"].map prepareAttempt)) [0, 0, 1, 0, 1, 0, 2, 1, 2] last ∧
      storedSenders prepareKind last.memory ⟨1, 2⟩ = ["a", "c"] ∧
      (storedSenders prepareKind last.memory ⟨1, 2⟩).Nodup := by
  obtain ⟨last, run, found⟩ : ∃ last,
      Run (interleave prepareKind ⟨1, 2⟩) (Undisturbed prepareKind ⟨1, 2⟩)
        (startAll noCerts (["a", "c", "a"].map prepareAttempt)) [0, 0, 1, 0, 1, 0, 2, 1, 2] last ∧
      (last.calls.all (fun call => call.stage == .finished) &&
        storedSenders prepareKind last.memory ⟨1, 2⟩ == ["a", "c"]) = true :=
    run_reaching (calmStep prepareKind ⟨1, 2⟩)
      (fun last : Shared prepareKind => last.calls.all (fun call => call.stage == .finished) &&
        storedSenders prepareKind last.memory ⟨1, 2⟩ == ["a", "c"])
      (undisturbed_of_test prepareKind ⟨1, 2⟩) (by decide +kernel)
  rw [Bool.and_eq_true] at found
  have finished : ∀ call ∈ last.calls, call.stage = .finished := by simpa using found.1
  exact ⟨last, run, eq_of_beq found.2,
    (every_sender_counted_once prepareKind ⟨1, 2⟩ noCerts List.nodup_nil _ _ last run finished).1⟩

/-- Two lookups before the first insertion: the second insertion replaces the
certificate that holds the vote of `a`. Two scans before the first append: the
vote of `a` is stored twice. -/
theorem interleaved_votes_lost_and_doubled :
    (∃ last, Run (interleave prepareKind ⟨1, 2⟩) (fun _ _ => True)
        (startAll noCerts (["a", "c"].map prepareAttempt)) [0, 1, 0, 0, 0, 1, 1, 1] last ∧
      (∀ call ∈ last.calls, call.stage = .finished) ∧
      storedSenders prepareKind last.memory ⟨1, 2⟩ = ["c"]) ∧
    ∃ last, Run (interleave prepareKind ⟨1, 2⟩) (fun _ _ => True)
        (startAll noCerts (["a", "a"].map prepareAttempt)) [0, 0, 1, 0, 1, 0, 1] last ∧
      (∀ call ∈ last.calls, call.stage = .finished) ∧
      storedSenders prepareKind last.memory ⟨1, 2⟩ = ["a", "a"] := by
  constructor
  · obtain ⟨last, run, found⟩ : ∃ last, Run (interleave prepareKind ⟨1, 2⟩) (fun _ _ => True)
        (startAll noCerts (["a", "c"].map prepareAttempt)) [0, 1, 0, 0, 0, 1, 1, 1] last ∧
        (last.calls.all (fun call => call.stage == .finished) &&
          storedSenders prepareKind last.memory ⟨1, 2⟩ == ["c"]) = true :=
      run_reaching (fun _ _ => true)
        (fun last : Shared prepareKind => last.calls.all (fun call => call.stage == .finished) &&
          storedSenders prepareKind last.memory ⟨1, 2⟩ == ["c"])
        (fun _ _ _ => trivial) (by decide +kernel)
    rw [Bool.and_eq_true] at found
    exact ⟨last, run, by simpa using found.1, eq_of_beq found.2⟩
  · obtain ⟨last, run, found⟩ : ∃ last, Run (interleave prepareKind ⟨1, 2⟩) (fun _ _ => True)
        (startAll noCerts (["a", "a"].map prepareAttempt)) [0, 0, 1, 0, 1, 0, 1] last ∧
        (last.calls.all (fun call => call.stage == .finished) &&
          storedSenders prepareKind last.memory ⟨1, 2⟩ == ["a", "a"]) = true :=
      run_reaching (fun _ _ => true)
        (fun last : Shared prepareKind => last.calls.all (fun call => call.stage == .finished) &&
          storedSenders prepareKind last.memory ⟨1, 2⟩ == ["a", "a"])
        (fun _ _ _ => trivial) (by decide +kernel)
    rw [Bool.and_eq_true] at found
    exact ⟨last, run, by simpa using found.1, eq_of_beq found.2⟩

end PbftBlock.CertInterleavings
