import PbftBlock.ConsensusBasics
import PbftBlock.Library.Tallies

/-!
# The agreed execution sequence

`getConsensusTxExes` ranges over a Go map, in an order the language leaves
open, and keeps a strictly larger count. The order is an argument here. With one
Prepare per sender among `N` nodes the quorum is more than half of the Prepares,
so at most one sequence reaches it, and every order finds that one.
-/

namespace PbftBlock.ExecutionSequences

open PbftBlock.ConsensusMessages PbftBlock.ConsensusWorker PbftBlock.ConsensusBasics
open PbftBlock.Library.FiniteMaps PbftBlock.Library.Tallies

set_option autoImplicit false

/-- An iteration order: the range visits every entry of the map once. -/
structure RangeOrder where
  visits : List (Entry Bytes) → List (Entry Bytes)
  once : ∀ entries, (visits entries).Perm entries

/-- `getConsensusTxExes` when the range over `txExeCounts` takes this order. -/
def getConsensusTxExesIn (order : RangeOrder) (worker : Worker) (digest : String)
    (v reqID : UInt64) : Except String Bytes :=
  match worker.certStore.lookup ⟨v, reqID⟩ with
  | none => .error "cert is nil"
  | some cert =>
      let best := mostFrequent (order.visits (txExeCounts cert.prepare digest v reqID).entries)
      if getQuorum worker ≤ (best.2 : Int) then .ok best.1
      else .error "not have consensus txdepend reached quorumNum"

def storedOrder : RangeOrder := ⟨id, fun _ => List.Perm.refl _⟩

def reversedOrder : RangeOrder := ⟨List.reverse, fun entries => entries.reverse_perm⟩

example : getConsensusTxExesIn storedOrder = getConsensusTxExes := rfl

/-- A Prepare that is counted: it names the view, the number and the digest and
has a sequence. -/
def carriesSequence (digest : String) (v reqID : UInt64) (p : Prepare) : Bool :=
  matchesPrepare digest v reqID p && p.txsExeSeqs.length != 0

theorem most_frequent_scan (entries : List (Entry Bytes)) :
    mostFrequent entries = entries.foldl larger ([], 0) := rfl

def Carried (worker : Worker) (digest : String) (v reqID : UInt64) (exe : Bytes) : Prop :=
  exe ≠ [] ∧ getQuorum worker ≤
    ((certAt worker ⟨v, reqID⟩).prepare.countP fun p =>
      matchesPrepare digest v reqID p && decide (p.txsExeSeqs = exe) : Nat)

theorem support_sequence (prepares : List Prepare) (digest : String) (v reqID : UInt64)
    (exe : Bytes) :
    support (carriesSequence digest v reqID) Prepare.txsExeSeqs prepares exe =
      if exe = [] then 0
      else prepares.countP fun p => matchesPrepare digest v reqID p && decide (p.txsExeSeqs = exe) := by
  unfold support
  split_ifs with empty
  · rw [List.countP_eq_zero]
    intro p _ counted
    rw [Bool.and_eq_true, decide_eq_true_iff, empty] at counted
    simp [carriesSequence, counted.2] at counted
  · apply List.countP_congr
    intro p _
    by_cases same : p.txsExeSeqs = exe
    · simp [carriesSequence, same, empty]
    · simp [same]

/-- `getQuorum` is more than half of two or more nodes. -/
theorem quorum_majority {worker : Worker} (several : 2 ≤ worker.N) :
    worker.N < 2 * getQuorum worker ∧ 0 < getQuorum worker := by
  unfold getQuorum
  split_ifs <;> omega

section OnePerSender

variable {worker : Worker} {digest : String} {v reqID : UInt64} {nodes : Finset String}

/-- Different senders out of `N` nodes send at most `N` Prepares. -/
theorem prepares_le_nodes {prepares : List Prepare}
    (single : (prepares.map Prepare.sender).Nodup)
    (among : ∀ p ∈ prepares, p.sender ∈ nodes) : prepares.length ≤ nodes.card := by
  have inside : (prepares.map Prepare.sender).toFinset ⊆ nodes := by
    intro name member
    obtain ⟨p, listed, rfl⟩ := List.mem_map.mp (List.mem_toFinset.mp member)
    exact among p listed
  have bound := Finset.card_le_card inside
  rwa [List.toFinset_card_of_nodup single, List.length_map] at bound

theorem carried_iff_support (exe : Bytes) (several : 2 ≤ worker.N) :
    Carried worker digest v reqID exe ↔
      (getQuorum worker).toNat ≤ support (carriesSequence digest v reqID) Prepare.txsExeSeqs
        (certAt worker ⟨v, reqID⟩).prepare exe := by
  have positive := (quorum_majority several).2
  unfold Carried
  rw [support_sequence]
  split_ifs with empty
  · constructor
    · intro carried
      exact absurd empty carried.1
    · intro reached
      omega
  · constructor
    · intro carried
      have reached := carried.2
      omega
    · intro reached
      exact ⟨empty, by omega⟩

def noSequence (worker : Worker) (v reqID : UInt64) : String :=
  match worker.certStore.lookup ⟨v, reqID⟩ with
  | none => "cert is nil"
  | some _ => "not have consensus txdepend reached quorumNum"

theorem get_consensus_tx_exes_in (order : RangeOrder) (digest : String) (several : 2 ≤ worker.N)
    (short : (certAt worker ⟨v, reqID⟩).prepare.length < 2 * (getQuorum worker).toNat) :
    (∀ exe, Carried worker digest v reqID exe →
      getConsensusTxExesIn order worker digest v reqID = .ok exe) ∧
    ((∀ exe, ¬Carried worker digest v reqID exe) →
      getConsensusTxExesIn order worker digest v reqID = .error (noSequence worker v reqID)) := by
  have positive := (quorum_majority several).2
  unfold getConsensusTxExesIn noSequence
  cases stored : worker.certStore.lookup ⟨v, reqID⟩ with
  | none =>
      refine ⟨?_, fun _ => rfl⟩
      intro exe carried
      have reached := carried.2
      simp only [certAt, stored] at reached
      change getQuorum worker ≤ 0 at reached
      omega
  | some cert =>
      have held : certAt worker ⟨v, reqID⟩ = cert := by
        simp [certAt, stored]
      rw [held] at short
      have visited := order.once (txExeCounts cert.prepare digest v reqID).entries
      dsimp only
      constructor
      · intro exe carried
        rw [carried_iff_support exe several, held] at carried
        have found := scan_finds_majority short carried visited []
        rw [most_frequent_scan, found]
        exact if_pos (by omega)
      · intro missing
        have below : ∀ exe, support (carriesSequence digest v reqID) Prepare.txsExeSeqs
            cert.prepare exe < (getQuorum worker).toNat := by
          intro exe
          have absent := missing exe
          rw [carried_iff_support exe several, held] at absent
          omega
        have low := scan_below_quorum (by omega) below visited []
        rw [most_frequent_scan]
        exact if_neg (by omega)

/-- With at most one Prepare per sender out of `N ≥ 2` nodes, every order of the
range gives the same result: the one sequence a quorum carries, or an error. -/
theorem consensus_sequence_independent_of_order (worker : Worker) (digest : String)
    (v reqID : UInt64) (nodes : Finset String) (several : 2 ≤ worker.N)
    (size : (nodes.card : Int) = worker.N)
    (single : ((certAt worker ⟨v, reqID⟩).prepare.map Prepare.sender).Nodup)
    (among : ∀ p ∈ (certAt worker ⟨v, reqID⟩).prepare, p.sender ∈ nodes)
    (order other : RangeOrder) :
    getConsensusTxExesIn order worker digest v reqID =
        getConsensusTxExesIn other worker digest v reqID ∧
      ((∃ exe, getConsensusTxExesIn order worker digest v reqID = .ok exe) ↔
        ∃ exe, Carried worker digest v reqID exe) ∧
      (∀ left right, Carried worker digest v reqID left →
        Carried worker digest v reqID right → left = right) ∧
      (∀ exe, Carried worker digest v reqID exe →
        getConsensusTxExesIn order worker digest v reqID = .ok exe) ∧
      ((¬∃ exe, Carried worker digest v reqID exe) →
        getConsensusTxExesIn order worker digest v reqID =
          .error (noSequence worker v reqID)) := by
  have bound := prepares_le_nodes single among
  have majority := (quorum_majority several).1
  have short : (certAt worker ⟨v, reqID⟩).prepare.length < 2 * (getQuorum worker).toNat := by
    omega
  obtain ⟨found, missed⟩ := get_consensus_tx_exes_in order digest several short
  obtain ⟨otherFound, otherMissed⟩ := get_consensus_tx_exes_in other digest several short
  refine ⟨?_, ?_, ?_, found, ?_⟩
  · by_cases agreed : ∃ exe, Carried worker digest v reqID exe
    · obtain ⟨exe, carried⟩ := agreed
      rw [found exe carried, otherFound exe carried]
    · rw [missed (not_exists.mp agreed), otherMissed (not_exists.mp agreed)]
  · constructor
    · rintro ⟨exe, returned⟩
      by_contra missing
      rw [missed (not_exists.mp missing)] at returned
      cases returned
    · rintro ⟨exe, carried⟩
      exact ⟨exe, found exe carried⟩
  · intro left right leftCarried rightCarried
    have same := (found left leftCarried).symm.trans (found right rightCarried)
    exact Except.ok.inj same
  · intro missing
    exact missed (not_exists.mp missing)

/-- Two of three nodes agree on a sequence; the third has sent another one. -/
def threeSequences : Worker :=
  { startWorker "a" "a" 3 with
    certStore := (∅ : FiniteMap MsgID MsgCert).insert ⟨1, 2⟩
      { prepare := [⟨"c", 1, 2, "2", [9]⟩, ⟨"a", 1, 2, "2", [7]⟩, ⟨"b", 1, 2, "2", [7]⟩] } }

theorem consensus_sequence_of_three_nodes :
    getConsensusTxExesIn storedOrder threeSequences "2" 1 2 =
        getConsensusTxExesIn reversedOrder threeSequences "2" 1 2 ∧
      getConsensusTxExesIn storedOrder threeSequences "2" 1 2 = .ok [7] := by
  obtain ⟨same, _, _, found, _⟩ :=
    consensus_sequence_independent_of_order threeSequences "2" 1 2 {"a", "b", "c"}
      (by decide) (by decide) (by decide) (by decide) storedOrder reversedOrder
  exact ⟨same, found [7] ⟨by decide, by decide⟩⟩

end OnePerSender

end PbftBlock.ExecutionSequences
