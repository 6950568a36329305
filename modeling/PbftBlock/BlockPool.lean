import PbftBlock.StoreKeys

/-!
# The block pool and its timers

`possibleValidBlock` keeps proposed blocks by height and hash, `blockbeats` keeps
for every hash the time it came in, and `expirationLoop` drops what is too old.
The remaining functions of `eth/pbft-core_basic.go` on these two maps are
transcribed here; where the source ranges over a map, the order is an argument.
A Checkpoint deletes blocks by height but one timer by hash, so the two maps part
when its hash belongs to a block above its height.
-/

namespace PbftBlock.BlockPool

open PbftBlock.ConsensusMessages PbftBlock.ConsensusWorker PbftBlock.ConsensusBasics
open PbftBlock.ConsensusHandlers PbftBlock.HandlerActions PbftBlock.ActionChanges
open PbftBlock.CommitOncePerHeight
open PbftBlock.Library.FiniteMaps PbftBlock.Library.GuardedRuns

set_option autoImplicit false

section Transcription

def holdsHash (worker : Worker) (hash : String) (bn : UInt64) : Bool :=
  (getBlockFromPossibleValidBlock worker bn hash).isSome

def getPossibleBHByHash (order : List UInt64) (worker : Worker) (hash : String) :
    Except String UInt64 :=
  match order.find? (holdsHash worker hash) with
  | some bn => .ok bn
  | none => .error "non such block"

/-- The first height in the order that holds the hash loses it, and goes with
its last block. -/
def deleteImpossibleValidBlockByHash (order : List UInt64) (worker : Worker) (hash : String) :
    Worker :=
  match order.find? (holdsHash worker hash) with
  | none => worker
  | some bn =>
      let blocks := ((worker.possibleValidBlock.lookup bn).getD ∅).erase hash
      { worker with
        possibleValidBlock :=
          if blocks.entries.isEmpty then worker.possibleValidBlock.erase bn
          else worker.possibleValidBlock.insert bn blocks }

def deletePVBAndBeatsByHash (order : List UInt64) (worker : Worker) (bhash : String) : Worker :=
  deleteImpossibleValidBlockByHash order (deletbeats worker bhash) bhash

def resetPVBAndBeats (worker : Worker) : Worker :=
  { worker with blockbeats := ∅, possibleValidBlock := ∅ }

def maxConsensusLifetime : Nat := 40 * 10 ^ 9

/-- One iteration of `expirationLoop` over `blockbeats`: the hash, the time at
which its age is taken, and the orders of the two ranges over the heights. -/
structure Visit where
  hash : String
  now : Instant
  searched : List UInt64
  deleted : List UInt64

def isNextHeight (worker : Worker) (order : List UInt64) (hash : String) : Bool :=
  match getPossibleBHByHash order worker hash with
  | .ok bh => bh == worker.currentBlock + 1
  | .error _ => false

def visitBeat (worker : Worker) (isExpire : Bool) (visit : Visit) : Worker × Bool :=
  match worker.blockbeats.lookup visit.hash with
  | none => (worker, isExpire)
  | some beat =>
      if beat + maxConsensusLifetime < visit.now then
        (deletePVBAndBeatsByHash visit.deleted worker visit.hash,
          isExpire || isNextHeight worker visit.searched visit.hash)
      else (worker, isExpire)

/-- The range over `blockbeats`; a range over a map meets each key once. -/
def visitBeats : List Visit → Worker → Bool → Option (Worker × Bool)
  | [], worker, isExpire => some (worker, isExpire)
  | visit :: rest, worker, isExpire =>
      if visit.searched.Perm worker.possibleValidBlock.keys ∧
          visit.deleted.Perm (deletbeats worker visit.hash).possibleValidBlock.keys then
        visitBeats rest (visitBeat worker isExpire visit).1 (visitBeat worker isExpire visit).2
      else none

def expirationPass (worker : Worker) (visits : List Visit) : Option Worker :=
  if (visits.map Visit.hash).Perm worker.blockbeats.keys then
    (visitBeats visits worker false).map fun result =>
      if result.2 ∧ result.1.consensusCtx ≠ .unset then
        { result.1 with consensusCtx := .cancelled }
      else result.1
  else none

/-- The operations on the pool. The handlers of the node are among them, and
`RecvCheckpoint` is one of those. -/
inductive PoolEvent where
  | put (now : Instant) (block : Block)
  | handle (now : Instant) (call : Call)
  | deleteByHash (hash : String) (order : List UInt64)
  | expire (visits : List Visit)
  | reset

def poolStep (worker : Worker) : PoolEvent → Option Worker
  | .put now block => some (putPVBAndBeats now worker block)
  | .handle now call => some (runCall now worker call).worker
  | .deleteByHash hash order =>
      if order.Perm worker.possibleValidBlock.keys then
        some (deletePVBAndBeatsByHash order worker hash)
      else none
  | .expire visits => expirationPass worker visits
  | .reset => some (resetPVBAndBeats worker)

end Transcription

section Invariant

/-- Pool and timers know the same hashes, blocks lie under their own height and
hash, and no height is empty. -/
structure InStep (worker : Worker) : Prop where
  timed : ∀ hash, (worker.blockbeats.lookup hash).isSome = true ↔
    ∃ height, (getBlockFromPossibleValidBlock worker height hash).isSome = true
  keyed : ∀ height hash block, getBlockFromPossibleValidBlock worker height hash = some block →
    block.number = height ∧ blockHash block = hash
  inhabited : ∀ height blocks, worker.possibleValidBlock.lookup height = some blocks →
    ∃ hash, (blocks.lookup hash).isSome = true

theorem in_step_of_same {before after : Worker} (prior : InStep before)
    (pool : after.possibleValidBlock = before.possibleValidBlock)
    (beats : after.blockbeats = before.blockbeats) : InStep after := by
  have blocks : ∀ height hash, getBlockFromPossibleValidBlock after height hash =
      getBlockFromPossibleValidBlock before height hash := by
    intro height hash
    unfold getBlockFromPossibleValidBlock
    rw [pool]
  constructor
  · intro hash
    simp only [beats, blocks]
    exact prior.timed hash
  · intro height hash block held
    rw [blocks] at held
    exact prior.keyed height hash block held
  · intro height blocks present
    rw [pool] at present
    exact prior.inhabited height blocks present

/-- A hash is a height in decimal, so it is pooled under one height only. -/
theorem pooled_height_unique {worker : Worker} (prior : InStep worker) {left right : UInt64}
    {hash : String} (leftHeld : holdsHash worker hash left = true)
    (rightHeld : holdsHash worker hash right = true) : left = right := by
  obtain ⟨leftBlock, leftFound⟩ := Option.isSome_iff_exists.mp leftHeld
  obtain ⟨rightBlock, rightFound⟩ := Option.isSome_iff_exists.mp rightHeld
  obtain ⟨leftNumber, leftHash⟩ := prior.keyed left hash leftBlock leftFound
  obtain ⟨rightNumber, rightHash⟩ := prior.keyed right hash rightBlock rightFound
  have numbers : leftBlock.number = rightBlock.number :=
    itoa_injective (leftHash.trans rightHash.symm)
  rw [← leftNumber, ← rightNumber, numbers]

end Invariant

section Put

variable {worker : Worker}

theorem lookup_put_pool (worker : Worker) (block : Block) (height : UInt64) (hash : String) :
    getBlockFromPossibleValidBlock (putBlockOnPossibleValidBlock worker block) height hash =
      if height = block.number ∧ hash = blockHash block then some block
      else getBlockFromPossibleValidBlock worker height hash := by
  unfold getBlockFromPossibleValidBlock putBlockOnPossibleValidBlock
  dsimp only
  rw [lookup_insert_eq]
  by_cases here : height = block.number
  · rw [if_pos here, Option.bind_some, lookup_insert_eq, here]
    cases worker.possibleValidBlock.lookup block.number with
    | none => by_cases same : hash = blockHash block <;> simp [same]
    | some blocks => by_cases same : hash = blockHash block <;> simp [same]
  · simp [here]

theorem lookup_add_beats (now : Instant) (worker : Worker) (name hash : String) :
    ((addbeats now worker name).blockbeats.lookup hash).isSome = true ↔
      hash = name ∨ (worker.blockbeats.lookup hash).isSome = true := by
  unfold addbeats
  cases known : worker.blockbeats.lookup name with
  | some beat =>
      dsimp only
      constructor
      · exact .inr
      · rintro (rfl | held)
        · rw [known]
          rfl
        · exact held
  | none =>
      dsimp only
      rw [lookup_insert_eq]
      by_cases same : hash = name <;> simp [same]

theorem put_in_step (now : Instant) (block : Block) (prior : InStep worker) :
    InStep (putPVBAndBeats now worker block) := by
  have blocks : ∀ height hash,
      getBlockFromPossibleValidBlock (putPVBAndBeats now worker block) height hash =
        if height = block.number ∧ hash = blockHash block then some block
        else getBlockFromPossibleValidBlock worker height hash :=
    lookup_put_pool worker block
  have beats : ∀ hash, ((putPVBAndBeats now worker block).blockbeats.lookup hash).isSome = true ↔
      hash = blockHash block ∨ (worker.blockbeats.lookup hash).isSome = true :=
    lookup_add_beats now (putBlockOnPossibleValidBlock worker block) (blockHash block)
  constructor
  · intro hash
    rw [beats]
    constructor
    · rintro (rfl | held)
      · refine ⟨block.number, ?_⟩
        rw [blocks, if_pos ⟨rfl, rfl⟩]
        rfl
      · obtain ⟨height, found⟩ := (prior.timed hash).mp held
        refine ⟨height, ?_⟩
        rw [blocks]
        split_ifs
        · rfl
        · exact found
    · rintro ⟨height, found⟩
      rw [blocks] at found
      split_ifs at found with here
      · exact .inl here.2
      · exact .inr ((prior.timed hash).mpr ⟨height, found⟩)
  · intro height hash found held
    rw [blocks] at held
    split_ifs at held with here
    · obtain rfl := Option.some.inj held
      exact ⟨here.1.symm, here.2.symm⟩
    · exact prior.keyed height hash found held
  · intro height inner present
    have entry : (worker.possibleValidBlock.insert block.number
        (((worker.possibleValidBlock.lookup block.number).getD ∅).insert
          (blockHash block) block)).lookup height = some inner := present
    rw [lookup_insert_eq] at entry
    split_ifs at entry with here
    · obtain rfl := Option.some.inj entry
      exact ⟨blockHash block, by rw [lookup_insert_self]; rfl⟩
    · exact prior.inhabited height inner entry

end Put

section Checkpoints

variable {worker : Worker}

theorem lookup_delete_pool (worker : Worker) (dbn height : UInt64) (hash : String) :
    getBlockFromPossibleValidBlock (deleteImpossibleValidBlock worker dbn) height hash =
      if height ≤ dbn then none else getBlockFromPossibleValidBlock worker height hash := by
  unfold getBlockFromPossibleValidBlock deleteImpossibleValidBlock
  dsimp only
  rw [lookup_retain]
  by_cases low : height ≤ dbn
  · cases worker.possibleValidBlock.lookup height <;> simp [low]
  · cases worker.possibleValidBlock.lookup height <;> simp [low, Option.filter]

theorem lookup_delete_beats (worker : Worker) (dbn : UInt64) (hash : String) :
    ((deleteImpossibleValidBlock worker dbn).blockbeats.lookup hash).isSome = true ↔
      (worker.blockbeats.lookup hash).isSome = true ∧
        ∀ height, holdsHash worker hash height = true → dbn < height := by
  have expired : (worker.possibleValidBlock.entries.any fun entry =>
      decide (entry.1 ≤ dbn) && (entry.2.lookup hash).isSome) = true ↔
        ∃ height, height ≤ dbn ∧ holdsHash worker hash height = true := by
    rw [List.any_eq_true]
    constructor
    · rintro ⟨⟨height, blocks⟩, member, passed⟩
      rw [Bool.and_eq_true, decide_eq_true_eq] at passed
      refine ⟨height, passed.1, ?_⟩
      have present : worker.possibleValidBlock.lookup height = some blocks :=
        AList.mem_lookup_iff.mpr member
      unfold holdsHash getBlockFromPossibleValidBlock
      rw [present]
      exact passed.2
    · rintro ⟨height, low, held⟩
      unfold holdsHash getBlockFromPossibleValidBlock at held
      cases present : worker.possibleValidBlock.lookup height with
      | none => simp [present] at held
      | some blocks =>
          rw [present, Option.bind_some] at held
          refine ⟨⟨height, blocks⟩, AList.mem_lookup_iff.mp present, ?_⟩
          rw [Bool.and_eq_true, decide_eq_true_eq]
          exact ⟨low, held⟩
  unfold deleteImpossibleValidBlock
  dsimp only
  rw [lookup_retain]
  by_cases gone : ∃ height, height ≤ dbn ∧ holdsHash worker hash height = true
  · have swept := expired.mpr gone
    obtain ⟨height, low, held⟩ := gone
    constructor
    · intro kept
      cases beat : worker.blockbeats.lookup hash with
      | none => simp [beat] at kept
      | some time => simp [beat, swept] at kept
    · rintro ⟨_, above⟩
      exact absurd (above height held) (UInt64.not_lt.mpr low)
  · have spared : (worker.possibleValidBlock.entries.any fun entry =>
        decide (entry.1 ≤ dbn) && (entry.2.lookup hash).isSome) = false := by
      rw [← Bool.not_eq_true, expired]
      exact gone
    have above : ∀ height, holdsHash worker hash height = true → dbn < height := by
      intro height held
      by_contra low
      exact gone ⟨height, UInt64.not_lt.mp low, held⟩
    cases beat : worker.blockbeats.lookup hash with
    | none => simp
    | some time =>
        simp only [spared, Option.filter, Bool.not_false, Option.isSome_some, if_true, true_and,
          true_iff]
        exact above

theorem lookup_erase_beat (worker : Worker) (name hash : String) :
    ((deletbeats worker name).blockbeats.lookup hash).isSome = true ↔
      hash ≠ name ∧ (worker.blockbeats.lookup hash).isSome = true := by
  unfold deletbeats
  dsimp only
  by_cases same : hash = name
  · subst same
    simp
  · rw [AList.lookup_erase_ne same]
    simp [same]

/-- No block above the height of the Checkpoint is pooled under its hash. -/
def NamesOwnHeight (worker : Worker) (bn : UInt64) (bhash : String) : Prop :=
  ∀ height, bn < height → getBlockFromPossibleValidBlock worker height bhash = none

/-- Deleting by height and hash keeps the maps in step exactly when the hash is
not that of a block which stays. -/
theorem delete_in_step_iff (bn : UInt64) (bhash : String) (prior : InStep worker) :
    InStep (deletePVBAndBeats worker bn bhash) ↔ NamesOwnHeight worker bn bhash := by
  have blocks : ∀ height hash,
      getBlockFromPossibleValidBlock (deletePVBAndBeats worker bn bhash) height hash =
        if height ≤ bn then none else getBlockFromPossibleValidBlock worker height hash :=
    lookup_delete_pool worker bn
  have beats : ∀ hash, ((deletePVBAndBeats worker bn bhash).blockbeats.lookup hash).isSome = true ↔
      hash ≠ bhash ∧ (worker.blockbeats.lookup hash).isSome = true ∧
        ∀ height, holdsHash worker hash height = true → bn < height := by
    intro hash
    unfold deletePVBAndBeats
    rw [lookup_erase_beat, lookup_delete_beats]
  constructor
  · intro after height above
    by_contra pooled
    have stays : (getBlockFromPossibleValidBlock (deletePVBAndBeats worker bn bhash) height
        bhash).isSome = true := by
      rw [blocks, if_neg (UInt64.not_le.mpr above)]
      exact Option.isSome_iff_ne_none.mpr pooled
    exact ((beats bhash).mp ((after.timed bhash).mpr ⟨height, stays⟩)).1 rfl
  · intro own
    constructor
    · intro hash
      rw [beats]
      constructor
      · rintro ⟨_, beat, above⟩
        obtain ⟨height, held⟩ := (prior.timed hash).mp beat
        refine ⟨height, ?_⟩
        rw [blocks, if_neg (UInt64.not_le.mpr (above height held))]
        exact held
      · rintro ⟨height, stays⟩
        have above : bn < height := by
          by_contra low
          rw [blocks, if_pos (UInt64.not_lt.mp low)] at stays
          cases stays
        rw [blocks, if_neg (UInt64.not_le.mpr above)] at stays
        refine ⟨?_, (prior.timed hash).mpr ⟨height, stays⟩, ?_⟩
        · rintro rfl
          rw [own height above] at stays
          cases stays
        · intro other held
          rw [pooled_height_unique prior held stays]
          exact above
    · intro height hash block held
      rw [blocks] at held
      split_ifs at held
      exact prior.keyed height hash block held
    · intro height inner present
      exact prior.inhabited height inner (lookup_retain_some present).1

def CheckpointSound (worker : Worker) (chkpt : Checkpoint) : Prop :=
  worker.checkpointStore.lookup chkpt.blockHash = none →
    worker.currentBlock ≤ chkpt.blockHeight →
    NamesOwnHeight worker chkpt.blockHeight chkpt.blockHash

theorem checkpoint_in_step (chkpt : Checkpoint) (prior : InStep worker)
    (sound : CheckpointSound worker chkpt) : InStep (recvCheckpoint worker chkpt).worker := by
  unfold recvCheckpoint recvCheckpointWith
  dsimp only
  split
  · exact in_step_of_same prior rfl rfl
  rename_i known
  split
  · exact in_step_of_same prior rfl rfl
  · rename_i low
    have own : NamesOwnHeight worker chkpt.blockHeight chkpt.blockHash :=
      sound (by simpa using known) (UInt64.not_lt.mp low)
    have deleted := (delete_in_step_iff chkpt.blockHeight chkpt.blockHash prior).mpr own
    exact in_step_of_same deleted rfl rfl

end Checkpoints

section Hashes

variable {worker : Worker}

theorem find_holding_none (worker : Worker) {order : List UInt64} {hash : String}
    (all : order.Perm worker.possibleValidBlock.keys)
    (missing : order.find? (holdsHash worker hash) = none) (height : UInt64) :
    holdsHash worker hash height = false := by
  by_contra held
  rw [Bool.not_eq_false] at held
  have present : height ∈ worker.possibleValidBlock := by
    rw [← AList.lookup_isSome]
    unfold holdsHash getBlockFromPossibleValidBlock at held
    cases entry : worker.possibleValidBlock.lookup height with
    | none => simp [entry] at held
    | some blocks => rfl
  have member : height ∈ order := all.mem_iff.mpr (AList.mem_keys.mpr present)
  exact List.find?_eq_none.mp missing height member held

theorem lookup_delete_by_hash {order : List UInt64} {hash : String} {height : UInt64}
    (found : order.find? (holdsHash worker hash) = some height) (bn : UInt64) (name : String) :
    getBlockFromPossibleValidBlock (deleteImpossibleValidBlockByHash order worker hash) bn name =
      if bn = height ∧ name = hash then none
      else getBlockFromPossibleValidBlock worker bn name := by
  unfold deleteImpossibleValidBlockByHash
  rw [found]
  unfold getBlockFromPossibleValidBlock
  dsimp only
  have inner : ∀ key, (((worker.possibleValidBlock.lookup height).getD ∅).erase hash).lookup key =
      if key = hash then none
      else ((worker.possibleValidBlock.lookup height).getD ∅).lookup key := by
    intro key
    by_cases same : key = hash
    · rw [if_pos same, same, AList.lookup_erase]
    · rw [if_neg same, AList.lookup_erase_ne same]
  have stored : ∀ key, (worker.possibleValidBlock.lookup height).bind (fun blocks =>
      blocks.lookup key) = ((worker.possibleValidBlock.lookup height).getD ∅).lookup key := by
    intro key
    cases worker.possibleValidBlock.lookup height with
    | none => rfl
    | some blocks => rfl
  by_cases here : bn = height
  · subst here
    split_ifs with empty same same
    · rw [AList.lookup_erase, Option.bind_none]
    · have gone := inner name
      rw [List.isEmpty_iff] at empty
      have vacant : ((worker.possibleValidBlock.lookup bn).getD ∅).erase hash = ∅ :=
        AList.ext empty
      rw [vacant, if_neg (fun equal => same ⟨rfl, equal⟩)] at gone
      rw [AList.lookup_erase, Option.bind_none, stored, ← gone]
      rfl
    · rw [lookup_insert_self, Option.bind_some, inner, if_pos same.2]
    · rw [lookup_insert_self, Option.bind_some, inner,
        if_neg (fun equal => same ⟨rfl, equal⟩), stored]
  · have other : ¬(bn = height ∧ name = hash) := fun both => here both.1
    rw [if_neg other]
    split_ifs
    · rw [AList.lookup_erase_ne here]
    · rw [lookup_insert_eq, if_neg here]

theorem delete_by_hash_in_step {order : List UInt64} (hash : String)
    (all : order.Perm worker.possibleValidBlock.keys) (prior : InStep worker) :
    InStep (deletePVBAndBeatsByHash order worker hash) := by
  have beats : ∀ name, ((deletePVBAndBeatsByHash order worker hash).blockbeats.lookup
      name).isSome = true ↔ name ≠ hash ∧ (worker.blockbeats.lookup name).isSome = true := by
    intro name
    rw [← lookup_erase_beat]
    unfold deletePVBAndBeatsByHash deleteImpossibleValidBlockByHash
    cases order.find? (holdsHash (deletbeats worker hash) hash) <;> rfl
  cases found : order.find? (holdsHash (deletbeats worker hash) hash) with
  | none =>
      have missing := find_holding_none (deletbeats worker hash) all found
      have same : deletePVBAndBeatsByHash order worker hash = deletbeats worker hash := by
        unfold deletePVBAndBeatsByHash deleteImpossibleValidBlockByHash
        rw [found]
      constructor
      · intro name
        rw [beats, same]
        constructor
        · rintro ⟨_, beat⟩
          exact (prior.timed name).mp beat
        · rintro ⟨height, held⟩
          refine ⟨?_, (prior.timed name).mpr ⟨height, held⟩⟩
          rintro rfl
          have absent : (getBlockFromPossibleValidBlock (deletbeats worker name) height
            name).isSome = false := missing height
          rw [held] at absent
          cases absent
      · intro height name block held
        rw [same] at held
        exact prior.keyed height name block held
      · intro height blocks present
        rw [same] at present
        exact prior.inhabited height blocks present
  | some height =>
      have blocks : ∀ bn name,
          getBlockFromPossibleValidBlock (deletePVBAndBeatsByHash order worker hash) bn name =
            if bn = height ∧ name = hash then none
            else getBlockFromPossibleValidBlock worker bn name :=
        lookup_delete_by_hash found
      have held : holdsHash worker hash height = true := List.find?_some found
      constructor
      · intro name
        rw [beats]
        constructor
        · rintro ⟨other, beat⟩
          obtain ⟨bn, pooled⟩ := (prior.timed name).mp beat
          refine ⟨bn, ?_⟩
          rw [blocks, if_neg fun both => other both.2]
          exact pooled
        · rintro ⟨bn, pooled⟩
          have spared : ¬(bn = height ∧ name = hash) := by
            intro deleted
            rw [blocks, if_pos deleted] at pooled
            cases pooled
          rw [blocks, if_neg spared] at pooled
          refine ⟨?_, (prior.timed name).mpr ⟨bn, pooled⟩⟩
          rintro rfl
          exact spared ⟨pooled_height_unique prior pooled held, rfl⟩
      · intro bn name block pooled
        rw [blocks] at pooled
        split_ifs at pooled
        exact prior.keyed bn name block pooled
      · intro bn inner present
        unfold deletePVBAndBeatsByHash deleteImpossibleValidBlockByHash at present
        rw [found] at present
        dsimp only at present
        split_ifs at present with empty
        · by_cases here : bn = height
          · rw [here, AList.lookup_erase] at present
            cases present
          · rw [AList.lookup_erase_ne here] at present
            exact prior.inhabited bn inner present
        · rw [lookup_insert_eq] at present
          split_ifs at present
          · obtain rfl := Option.some.inj present
            obtain ⟨entry, member⟩ := List.exists_mem_of_ne_nil _
              (fun none => empty (List.isEmpty_iff.mpr none))
            exact ⟨entry.1, by rw [AList.mem_lookup_iff.mpr member]; rfl⟩
          · exact prior.inhabited bn inner present

theorem visit_in_step (isExpire : Bool) (visit : Visit)
    (all : visit.deleted.Perm worker.possibleValidBlock.keys) (prior : InStep worker) :
    InStep (visitBeat worker isExpire visit).1 := by
  unfold visitBeat
  cases worker.blockbeats.lookup visit.hash with
  | none => exact prior
  | some beat =>
      dsimp only
      split_ifs
      · exact delete_by_hash_in_step visit.hash all prior
      · exact prior

theorem visits_in_step (visits : List Visit) {isExpire : Bool} {result : Worker × Bool}
    (visited : visitBeats visits worker isExpire = some result) (prior : InStep worker) :
    InStep result.1 := by
  induction visits generalizing worker isExpire with
  | nil =>
      obtain rfl : (worker, isExpire) = result := Option.some.inj visited
      exact prior
  | cons visit rest ih =>
      unfold visitBeats at visited
      split_ifs at visited with orders
      exact ih visited (visit_in_step isExpire visit orders.2 prior)

theorem expiration_in_step {visits : List Visit} {after : Worker}
    (passed : expirationPass worker visits = some after) (prior : InStep worker) :
    InStep after := by
  unfold expirationPass at passed
  split_ifs at passed
  obtain ⟨result, visited, rfl⟩ := Option.map_eq_some_iff.mp passed
  have kept := visits_in_step visits visited prior
  split_ifs
  · exact in_step_of_same kept rfl rfl
  · exact kept

end Hashes

section Runs

variable {now : Instant} {first before after : Worker} {call : Call} {effects : List Effect}

/-- Apart from `RecvCheckpoint`, a handler touches the pool by putting blocks. -/
theorem action_pool (other : ∀ chkpt, call ≠ .recvCheckpoint chkpt)
    (action : Action now first call before effects after) :
    (after.possibleValidBlock = before.possibleValidBlock ∧
        after.blockbeats = before.blockbeats) ∨
      ∃ block, after = putPVBAndBeats now before block := by
  cases action with
  | pool _ request block _ _ _ => exact .inr ⟨block, rfl⟩
  | checkpoint chkpt _ => exact absurd rfl (other chkpt)
  | _ => exact .inl ⟨rfl, rfl⟩

theorem run_call_in_step (now : Instant) (worker : Worker) (call : Call)
    (sound : ∀ chkpt, call = .recvCheckpoint chkpt → CheckpointSound worker chkpt)
    (prior : InStep worker) : InStep (runCall now worker call).worker := by
  by_cases checkpointed : ∃ chkpt, call = .recvCheckpoint chkpt
  · obtain ⟨chkpt, rfl⟩ := checkpointed
    exact checkpoint_in_step chkpt prior (sound chkpt rfl)
  · have other : ∀ chkpt, call ≠ .recvCheckpoint chkpt :=
      fun chkpt same => checkpointed ⟨chkpt, same⟩
    refine chain_state_invariant InStep prior ?_ (run_call_performs now worker call)
    intro state _ next action held
    rcases action_pool other action with ⟨pool, beats⟩ | ⟨block, rfl⟩
    · exact in_step_of_same held pool beats
    · exact put_in_step now block held

def PoolRespected (worker : Worker) (event : PoolEvent) : Prop :=
  ∀ now chkpt, event = .handle now (.recvCheckpoint chkpt) → CheckpointSound worker chkpt

theorem pool_step_in_step {worker after : Worker} {event : PoolEvent}
    (respected : PoolRespected worker event) (stepped : poolStep worker event = some after)
    (prior : InStep worker) : InStep after := by
  cases event with
  | put now block =>
      obtain rfl := Option.some.inj stepped
      exact put_in_step now block prior
  | handle now call =>
      obtain rfl := Option.some.inj stepped
      exact run_call_in_step now worker call
        (fun chkpt called => respected now chkpt (by rw [called])) prior
  | deleteByHash hash order =>
      unfold poolStep at stepped
      dsimp only at stepped
      split_ifs at stepped with all
      obtain rfl := Option.some.inj stepped
      exact delete_by_hash_in_step hash all prior
  | expire visits => exact expiration_in_step stepped prior
  | reset =>
      obtain rfl := Option.some.inj stepped
      constructor
      · intro hash
        simp [resetPVBAndBeats, getBlockFromPossibleValidBlock]
      · intro height hash block held
        cases held
      · intro height blocks present
        cases present

/-- In every state reached through operations on the pool, the two maps are in
step, as long as a Checkpoint never names the hash of a pooled block above its
height. -/
theorem pool_and_timers_in_step (nodeID leader : String) (peersnum : Int)
    (events : List PoolEvent) (last : Worker)
    (run : Run poolStep PoolRespected (startWorker nodeID leader peersnum) events last) :
    InStep last := by
  have started : InStep (startWorker nodeID leader peersnum) := by
    constructor
    · intro hash
      simp [startWorker, getBlockFromPossibleValidBlock]
    · intro height hash block held
      cases held
    · intro height blocks present
      cases present
  exact run_invariant InStep (fun _ _ _ respected stepped prior =>
    pool_step_in_step respected stepped prior) run started

def respectsPool (worker : Worker) : PoolEvent → Bool
  | .handle _ (.recvCheckpoint chkpt) =>
      worker.possibleValidBlock.entries.all fun entry =>
        !(chkpt.blockHeight < entry.1) || (entry.2.lookup chkpt.blockHash).isNone
  | _ => true

theorem pool_respected_of_test (worker : Worker) (event : PoolEvent)
    (passed : respectsPool worker event = true) : PoolRespected worker event := by
  intro now chkpt called _ _ height above
  subst called
  unfold respectsPool at passed
  rw [List.all_eq_true] at passed
  unfold getBlockFromPossibleValidBlock
  cases present : worker.possibleValidBlock.lookup height with
  | none => rfl
  | some blocks =>
      have entry := passed ⟨height, blocks⟩ (AList.mem_lookup_iff.mp present)
      simpa [above] using entry

/-- Two blocks come in, a Checkpoint removes the lower one, the upper one expires
fifty seconds later, and a third comes in. -/
def poolSchedule : List PoolEvent :=
  [.put 0 (plainBlock 2 0), .put 1 (plainBlock 3 0),
    .handle 2 (.recvCheckpoint ⟨"c", 2, 9, "2"⟩),
    .expire [⟨"3", 50 * 10 ^ 9, [3], [3]⟩],
    .put (50 * 10 ^ 9) (plainBlock 4 0)]

theorem pool_and_timers_in_step_on_schedule :
    ∃ last, Run poolStep PoolRespected (startWorker "b" "a" 4) poolSchedule last ∧
      last.possibleValidBlock.keys = [4] ∧ InStep last := by
  obtain ⟨last, run, keys⟩ : ∃ last,
      Run poolStep PoolRespected (startWorker "b" "a" 4) poolSchedule last ∧
        (last.possibleValidBlock.keys == [4]) = true :=
    run_reaching respectsPool (fun last : Worker => last.possibleValidBlock.keys == [4])
      pool_respected_of_test (by decide +kernel)
  exact ⟨last, run, eq_of_beq keys, pool_and_timers_in_step "b" "a" 4 poolSchedule last run⟩

/-- A Checkpoint for height 1 that names the hash of the pooled block 2 takes
away its timer and leaves the block. -/
theorem checkpoint_strands_pooled_block :
    ∃ last, Run poolStep (fun _ _ => True) (startWorker "b" "a" 4)
        [.put 0 (plainBlock 2 0), .handle 1 (.recvCheckpoint ⟨"c", 1, 9, "2"⟩)] last ∧
      getBlockFromPossibleValidBlock last 2 "2" = some (plainBlock 2 0) ∧
      last.blockbeats.lookup "2" = none := by
  obtain ⟨last, run, found⟩ : ∃ last, Run poolStep (fun _ _ => True) (startWorker "b" "a" 4)
      [.put 0 (plainBlock 2 0), .handle 1 (.recvCheckpoint ⟨"c", 1, 9, "2"⟩)] last ∧
        decide (getBlockFromPossibleValidBlock last 2 "2" = some (plainBlock 2 0) ∧
          last.blockbeats.lookup "2" = none) = true :=
    run_reaching (fun _ _ => true)
      (fun last : Worker => decide (getBlockFromPossibleValidBlock last 2 "2" =
        some (plainBlock 2 0) ∧ last.blockbeats.lookup "2" = none))
      (fun _ _ _ => trivial) (by decide +kernel)
  exact ⟨last, run, of_decide_eq_true found⟩

end Runs

end PbftBlock.BlockPool
