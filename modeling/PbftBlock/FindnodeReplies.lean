import PbftBlock.DiscoveryTable

/-!
# Replies to findnode

A findnode request is answered with the closest entries of the table, in packets
that should stay below the limit of 1280 bytes. How many entries a packet may take
is computed at the start with the largest node that has a proper address. Nothing
bounds the address of a node that another node reports, so that the limit holds
exactly as long as the entries are small enough.
-/

namespace PbftBlock.FindnodeReplies

open PbftBlock.Library.BigEndian PbftBlock.Library.Rlp PbftBlock.Library.GuardedRuns
open PbftBlock.NodeKeys PbftBlock.Sm2 PbftBlock.DiscoveryPackets PbftBlock.DiscoveryTable
open PbftBlock.RlpReaders (maxInt)
open PbftBlock.Sm2Signatures (Draw Cyclic lastNonce signTurn signTurnWith signR randFieldElement dial dial_cyclic drawOf
  secondKey last_nonce_bounds sign_eq_last_turn sign_turn_calm sign_turn_ok verify_signed)

set_option autoImplicit false

section Transcription

/-- Seconds since the first year, and nanoseconds. -/
structure Time where
  sec : Int64
  nsec : Nat
deriving DecidableEq

def unixToInternal : Int64 := 62135596800

def Time.unix (sec : Int64) : Time := ⟨sec + unixToInternal, 0⟩

def Time.before (t u : Time) : Bool := t.sec < u.sec || (t.sec = u.sec && t.nsec < u.nsec)

def expired (now : Time) (ts : UInt64) : Bool := (Time.unix ts.toInt64).before now

def expirationAt (now : Time) : UInt64 := (now.sec + 20 - unixToInternal).toUInt64

def maxSizeNode : RpcNode := ⟨List.replicate 16 0, 0xFFFF, 0xFFFF, ⟨List.replicate 64 0, rfl⟩⟩

/-- The loop of `init`. Every node takes at least one byte, so that it ends within
as many turns as a packet has bytes. -/
def stuffPacket : Nat → Nat → List RpcNode → Option Nat
  | 0, _, _ => none
  | fuel + 1, n, nodes =>
      let nodes := nodes ++ [maxSizeNode]
      match encodedSize (Packet.neighbors ⟨nodes, 0xFFFFFFFFFFFFFFFF, []⟩).writer with
      -- a panic
      | .error _ => none
      | .ok size => if 1280 ≤ headSize + size + 1 then some n else stuffPacket fuel (n + 1) nodes

def maxNeighbors : Nat := (stuffPacket 1280 0 []).getD 0

/-- The loop over the closest nodes, with the nodes of the packet so far: the nodes of
all packets it sends. -/
def replyLoop : List Node → List RpcNode → List (List RpcNode)
  | [], _ => []
  | n :: closest, nodes =>
      let nodes := nodes ++ [nodeToRPC n]
      if nodes.length = maxNeighbors ∨ closest = [] then nodes :: replyLoop closest []
      else replyLoop closest nodes

/-- `handle` of a findnode request: its error, or the requests that it sends. The time
is taken twice. -/
def findnodeHandle (tab : State) (now later : Time) (req : Findnode) (fromID : NodeID) :
    Except String (List Neighbors) :=
  if expired now req.expiration then .error "expired"
  else if (tab.db fromID).isNone then .error "unknown node"
  else
    let closest := tab.closest (keccak256Hash [req.target.1]) bucketSize
    .ok ((replyLoop closest []).map fun nodes => ⟨nodes, expirationAt later, []⟩)

variable {curve : Curve}

/-- The packets that `send` writes for the requests; errors of it are ignored. -/
def emitted (prv : PrivateKey curve) (draws : List UInt8 → List Draw) (sent : List Neighbors) :
    List (List UInt8) :=
  sent.filterMap fun req => (encodePacket prv draws neighborsPacket (.neighbors req)).toOption

end Transcription

theorem max_neighbors_eq : maxNeighbors = 11 := by decide +kernel

section Loop

theorem reply_loop_cons (closest : List Node) (nodes : List RpcNode) (room : nodes.length < 11)
    (some : closest ≠ []) :
    replyLoop closest nodes =
      (nodes ++ (closest.take (11 - nodes.length)).map nodeToRPC) ::
        replyLoop (closest.drop (11 - nodes.length)) [] := by
  induction closest generalizing nodes with
  | nil => exact absurd rfl some
  | cons n closest induction =>
      obtain ⟨left, gap⟩ : ∃ left, 11 - nodes.length = left + 1 := ⟨10 - nodes.length, by omega⟩
      have grown : (nodes ++ [nodeToRPC n]).length = nodes.length + 1 := List.length_append
      rw [replyLoop, max_neighbors_eq, gap, List.take_succ_cons, List.drop_succ_cons,
        List.map_cons]
      split_ifs with full
      · have ends : left = 0 ∨ closest = [] := full.imp_left fun full => by omega
        rcases ends with rfl | rfl
        · rw [List.take_zero, List.drop_zero, List.map_nil]
        · rw [List.take_nil, List.drop_nil, List.map_nil]
      · obtain ⟨short, more⟩ := not_or.mp full
        have next := induction (nodes ++ [nodeToRPC n]) (by omega) more
        rw [grown, show 11 - (nodes.length + 1) = left by omega, List.append_assoc] at next
        exact next

theorem reply_loop_mem {closest : List Node} (few : closest.length ≤ 16) {nodes : List RpcNode} :
    nodes ∈ replyLoop closest [] ↔
      closest ≠ [] ∧ nodes = (closest.take 11).map nodeToRPC ∨
        closest.drop 11 ≠ [] ∧ nodes = (closest.drop 11).map nodeToRPC := by
  by_cases none : closest = []
  · subst none
    simp [replyLoop]
  · rw [reply_loop_cons closest [] (by decide) none, List.mem_cons]
    change nodes = (closest.take 11).map nodeToRPC ∨ nodes ∈ replyLoop (closest.drop 11) [] ↔ _
    have rest : (closest.drop 11).length ≤ 11 := by
      rw [List.length_drop]
      omega
    by_cases spills : closest.drop 11 = []
    · rw [spills]
      simp [replyLoop, none]
    · rw [reply_loop_cons (closest.drop 11) [] (by decide) spills]
      change _ ∨ nodes ∈ ((closest.drop 11).take 11).map nodeToRPC ::
        replyLoop ((closest.drop 11).drop 11) [] ↔ _
      rw [List.take_of_length_le rest, List.drop_eq_nil_of_le rest]
      simp [replyLoop, none, spills]

end Loop

section Sizes

def nodesSize (nodes : List RpcNode) : Nat := (nodes.map fun n => n.rlp.length).sum

theorem nodes_size_flatten (nodes : List RpcNode) :
    (nodes.map RpcNode.rlp).flatten.length = nodesSize nodes := by
  rw [List.length_flatten, List.map_map]
  rfl

theorem nodes_size_perm {nodes other : List RpcNode} (perm : nodes.Perm other) :
    nodesSize nodes = nodesSize other := by
  unfold nodesSize
  exact (perm.map _).sum_nat

theorem expiration_length (expiration : UInt64) : (number expiration.toNat).length ≤ 9 :=
  number_length_le 8 expiration.toNat_lt (by decide)

theorem reply_length (nodes : List RpcNode) (expiration : UInt64) :
    ∃ inner, inner = (header 0xC0 (nodesSize nodes)).length + nodesSize nodes ∧
      (Packet.neighbors ⟨nodes, expiration, []⟩).rlp.length =
        (header 0xC0 (inner + (number expiration.toNat).length)).length +
          (inner + (number expiration.toNat).length) := by
  refine ⟨(list (nodes.map RpcNode.rlp)).length, ?_, ?_⟩
  · rw [list_length, nodes_size_flatten]
  · have payload : [list (nodes.map RpcNode.rlp), number expiration.toNat].flatten.length =
        (list (nodes.map RpcNode.rlp)).length + (number expiration.toNat).length := by
      simp
    rw [← payload]
    exact list_length _

/-- The packet of a reply stays within the limit as long as its fields take no more
than 1100 bytes. -/
theorem reply_size_iff (nodes : List RpcNode) (expiration : UInt64) :
    headSize + 1 + (Packet.neighbors ⟨nodes, expiration, []⟩).rlp.length + 1 ≤ 1280 ↔
      nodesSize nodes + (number expiration.toNat).length ≤ 1100 := by
  have time := expiration_length expiration
  obtain ⟨inner, listed, whole⟩ := reply_length nodes expiration
  have head : headSize = 172 := rfl
  rw [head, whole]
  constructor
  · intro within
    by_cases large : 256 ≤ nodesSize nodes
    · have innerHeader := header_length_ge_three 0xC0 large
      have outerHeader := header_length_ge_three 0xC0
        (show 256 ≤ inner + (number expiration.toNat).length by omega)
      omega
    · omega
  · intro small
    have innerHeader := header_length_le_width 0xC0 2 (show nodesSize nodes < 256 ^ 2 by omega)
      (by decide)
    have outerHeader := header_length_le_width 0xC0 2
      (show inner + (number expiration.toNat).length < 256 ^ 2 by omega) (by decide)
    omega

theorem reply_length_le (nodes : List RpcNode) (expiration : UInt64)
    (small : nodesSize nodes < 2 ^ 32) :
    (Packet.neighbors ⟨nodes, expiration, []⟩).rlp.length ≤ nodesSize nodes + 27 := by
  have time := expiration_length expiration
  obtain ⟨inner, listed, whole⟩ := reply_length nodes expiration
  have innerHeader := header_length_le_width 0xC0 8 (show nodesSize nodes < 256 ^ 8 by omega)
    (by decide)
  have outerHeader := header_length_le_width 0xC0 8
    (show inner + (number expiration.toNat).length < 256 ^ 8 by omega) (by decide)
  omega

/-- The entries that go into one packet take, with the expiration, no more than 1100
bytes. -/
def Compact (closest : List Node) (expiration : UInt64) : Prop :=
  nodesSize ((closest.take 11).map nodeToRPC) + (number expiration.toNat).length ≤ 1100 ∧
    nodesSize ((closest.drop 11).map nodeToRPC) + (number expiration.toNat).length ≤ 1100

theorem replies_compact_iff {closest : List Node} (few : closest.length ≤ 16)
    (expiration : UInt64) :
    (∀ nodes ∈ replyLoop closest [],
        nodesSize nodes + (number expiration.toNat).length ≤ 1100) ↔
      Compact closest expiration := by
  have time := expiration_length expiration
  have nothing : nodesSize ([].map nodeToRPC) = 0 := rfl
  constructor
  · intro each
    constructor
    · by_cases none : closest = []
      · rw [none, List.take_nil, nothing]
        omega
      · exact each _ ((reply_loop_mem few).mpr (Or.inl ⟨none, rfl⟩))
    · by_cases spills : closest.drop 11 = []
      · rw [spills, nothing]
        omega
      · exact each _ ((reply_loop_mem few).mpr (Or.inr ⟨spills, rfl⟩))
  · intro compact nodes member
    rcases (reply_loop_mem few).mp member with ⟨_, rfl⟩ | ⟨_, rfl⟩
    · exact compact.1
    · exact compact.2

end Sizes

section Limit

variable {curve : Curve} {prv : PrivateKey curve} {draws : List UInt8 → List Draw}

theorem encoded_packet_length (lawful : Lawful curve) (verifies : Verifies prv draws) {req : Packet}
    (ptype : UInt8) (small : req.rlp.length < 2 ^ 64) :
    ∃ packet, encodePacket prv draws ptype req = .ok packet ∧
      packet.length = headSize + 1 + req.rlp.length + 1 := by
  obtain ⟨digits, signed, right⟩ := verifies (Sm3.keccak256 [ptype :: req.rlp])
  have fits : (NodeKeys.sign prv digits).length ≤ sigSize := sign_length lawful right
  refine ⟨_, encode_packet_eq small signed fits, ?_⟩
  rw [List.length_append, Sm3.keccak256_length, signed_part_length _ fits, List.length_cons,
    headSize, macSize]
  omega

theorem emitted_small_iff (lawful : Lawful curve) (verifies : Verifies prv draws)
    {sent : List Neighbors} (addressable : ∀ req ∈ sent, (Packet.neighbors req).rlp.length ≤ maxInt) :
    (∀ packet ∈ emitted prv draws sent, packet.length ≤ 1280) ↔
      ∀ req ∈ sent, headSize + 1 + (Packet.neighbors req).rlp.length + 1 ≤ 1280 := by
  have encoded : ∀ req ∈ sent, ∃ packet,
      encodePacket prv draws neighborsPacket (.neighbors req) = .ok packet ∧
        packet.length = headSize + 1 + (Packet.neighbors req).rlp.length + 1 := by
    intro req member
    apply encoded_packet_length lawful verifies
    exact Nat.lt_of_le_of_lt (addressable req member) (by decide)
  constructor
  · intro each req member
    obtain ⟨packet, ran, size⟩ := encoded req member
    rw [← size]
    apply each
    exact List.mem_filterMap.mpr ⟨req, member, by rw [ran]; rfl⟩
  · intro each packet member
    obtain ⟨req, asked, written⟩ := List.mem_filterMap.mp member
    obtain ⟨packet', ran, size⟩ := encoded req asked
    rw [ran] at written
    obtain rfl := Option.some.inj written
    rw [size]
    exact each req asked

theorem findnode_sent {tab : State} {now later : Time} {req : Findnode} {fromID : NodeID}
    {sent : List Neighbors} (handled : findnodeHandle tab now later req fromID = .ok sent) :
    sent = (replyLoop (tab.closest (keccak256Hash [req.target.1]) bucketSize) []).map fun nodes =>
      ⟨nodes, expirationAt later, []⟩ := by
  unfold findnodeHandle at handled
  split_ifs at handled
  exact (Except.ok.inj handled).symm

/-- The replies to a request are within the limit exactly if the entries are. -/
theorem findnode_within_limit_iff (lawful : Lawful curve) (verifies : Verifies prv draws)
    {tab : State} {now later : Time} {req : Findnode} {fromID : NodeID} {sent : List Neighbors}
    (handled : findnodeHandle tab now later req fromID = .ok sent)
    (addressable : ∀ reply ∈ sent, (Packet.neighbors reply).rlp.length ≤ maxInt) :
    (∀ packet ∈ emitted prv draws sent, packet.length ≤ 1280) ↔
      Compact (tab.closest (keccak256Hash [req.target.1]) bucketSize) (expirationAt later) := by
  have few : (tab.closest (keccak256Hash [req.target.1]) bucketSize).length ≤ 16 :=
    closest_length tab _ _
  rw [emitted_small_iff lawful verifies addressable, ← replies_compact_iff few,
    findnode_sent handled, List.forall_mem_map]
  simp only [reply_size_iff]

end Limit

section SmallTables

variable {curve : Curve} {prv : PrivateKey curve} {draws : List UInt8 → List Draw}

theorem reply_of_few {closest : List Node} (few : closest.length ≤ 11) {nodes : List RpcNode}
    (looped : nodes ∈ replyLoop closest []) : nodes = closest.map nodeToRPC := by
  rcases (reply_loop_mem (Nat.le_trans few (by decide))).mp looped with ⟨_, same⟩ | ⟨some, _⟩
  · rwa [List.take_of_length_le few] at same
  · exact absurd (List.drop_eq_nil_of_le few) some

theorem large_entries_emitted (lawful : Lawful curve) (verifies : Verifies prv draws) {tab : State}
    {now later : Time} {req : Findnode} {fromID : NodeID} {sent : List Neighbors}
    (handled : findnodeHandle tab now later req fromID = .ok sent) (few : tab.entries.length ≤ 11)
    (large : 1100 < nodesSize (tab.entries.map nodeToRPC))
    (bounded : nodesSize (tab.entries.map nodeToRPC) < 2 ^ 32) :
    ∃ packet ∈ emitted prv draws sent, 1280 < packet.length := by
  have found := closest_perm tab (keccak256Hash [req.target.1]) bucketSize
    (Nat.le_trans few (by decide))
  have short : (tab.closest (keccak256Hash [req.target.1]) bucketSize).length ≤ 11 := by
    rw [found.length_eq]
    exact few
  have size : nodesSize ((tab.closest (keccak256Hash [req.target.1]) bucketSize).map nodeToRPC) =
      nodesSize (tab.entries.map nodeToRPC) := nodes_size_perm (found.map nodeToRPC)
  have addressable : ∀ reply ∈ sent, (Packet.neighbors reply).rlp.length ≤ maxInt := by
    intro reply member
    rw [findnode_sent handled] at member
    obtain ⟨nodes, looped, rfl⟩ := List.mem_map.mp member
    have whole : nodesSize nodes = nodesSize (tab.entries.map nodeToRPC) := by
      rw [reply_of_few short looped, size]
    have bound := reply_length_le nodes (expirationAt later) (by omega)
    have limit : 2 ^ 32 + 27 ≤ maxInt := by decide
    omega
  by_contra within
  have each : ∀ packet ∈ emitted prv draws sent, packet.length ≤ 1280 := by
    intro packet member
    by_contra long
    exact within ⟨packet, member, Nat.not_le.mp long⟩
  have first := ((findnode_within_limit_iff lawful verifies handled addressable).mp each).1
  rw [List.take_of_length_le short, size] at first
  omega

end SmallTables

section Addresses

def ShortAddress (n : Node) : Prop := (n.ip.getD []).length ≤ 16

theorem short_node_size {n : Node} (short : ShortAddress n) : (nodeToRPC n).rlp.length ≤ 91 := by
  have bound : (nodeToRPC n).ip.length ≤ 16 := short
  have ip := string_length_le (nodeToRPC n).ip (by omega)
  have udp := number_length_le 2 (nodeToRPC n).udp.toNat_lt (by decide)
  have tcp := number_length_le 2 (nodeToRPC n).tcp.toNat_lt (by decide)
  have id : (string (nodeToRPC n).id.1).length = 66 := by
    have size := (nodeToRPC n).id.2
    have front : (header 0x80 64).length = 2 := by decide +kernel
    rw [string, if_neg (by omega), List.length_append, size, front]
  have payload : [string (nodeToRPC n).ip, number (nodeToRPC n).udp.toNat,
      number (nodeToRPC n).tcp.toNat, string (nodeToRPC n).id.1].flatten.length ≤ 89 := by
    simp only [List.flatten_cons, List.flatten_nil, List.length_append, List.length_nil]
    omega
  have front := header_length_le_width 0xC0 1 (Nat.lt_of_le_of_lt payload (by decide)) (Nat.le_refl 1)
  rw [RpcNode.rlp, list_length]
  omega

theorem short_nodes_size (nodes : List Node) (short : ∀ n ∈ nodes, ShortAddress n) :
    nodesSize (nodes.map nodeToRPC) ≤ nodes.length * 91 := by
  induction nodes with
  | nil => exact Nat.le_refl 0
  | cons n nodes induction =>
      have first := short_node_size (short n List.mem_cons_self)
      have rest := induction fun other member => short other (List.mem_cons_of_mem n member)
      have split : nodesSize ((n :: nodes).map nodeToRPC) =
          (nodeToRPC n).rlp.length + nodesSize (nodes.map nodeToRPC) := rfl
      rw [split, List.length_cons]
      omega

theorem compact_of_short {closest : List Node} (few : closest.length ≤ 16)
    (short : ∀ n ∈ closest, ShortAddress n) (expiration : UInt64) : Compact closest expiration := by
  have time := expiration_length expiration
  have first := short_nodes_size (closest.take 11) fun n member =>
    short n (List.mem_of_mem_take member)
  have second := short_nodes_size (closest.drop 11) fun n member =>
    short n (List.mem_of_mem_drop member)
  rw [List.length_take] at first
  rw [List.length_drop] at second
  constructor <;> omega

variable {curve : Curve} {prv : PrivateKey curve} {draws : List UInt8 → List Draw}

theorem compact_addressable {tab : State} {now later : Time} {req : Findnode} {fromID : NodeID}
    {sent : List Neighbors} (handled : findnodeHandle tab now later req fromID = .ok sent)
    (compact : Compact (tab.closest (keccak256Hash [req.target.1]) bucketSize)
      (expirationAt later)) :
    ∀ reply ∈ sent, (Packet.neighbors reply).rlp.length ≤ maxInt := by
  intro reply member
  rw [findnode_sent handled] at member
  obtain ⟨nodes, looped, rfl⟩ := List.mem_map.mp member
  have small := (replies_compact_iff (closest_length tab _ _) _).mpr compact nodes looped
  have within := (reply_size_iff nodes (expirationAt later)).mpr small
  have limit : 1280 ≤ maxInt := by decide
  omega

/-- While no node with a longer address answers a ping, all replies are within the
limit. -/
theorem replies_within_limit_in_runs (lawful : Lawful curve) (verifies : Verifies prv draws)
    {self : Node} {events : List Event} {tab : State}
    (run : Run step (fun tab event => Allowed tab event ∧ Brings ShortAddress event)
      (newTable self) events tab)
    {now later : Time} {req : Findnode} {fromID : NodeID} {sent : List Neighbors}
    (handled : findnodeHandle tab now later req fromID = .ok sent) :
    ∀ packet ∈ emitted prv draws sent, packet.length ≤ 1280 := by
  have kept := entries_throughout (throughout_run run)
  have compact := compact_of_short (closest_length tab (keccak256Hash [req.target.1]) bucketSize)
    (fun n member => kept n (closest_mem tab member)) (expirationAt later)
  have addressable := compact_addressable handled compact
  exact (findnode_within_limit_iff lawful verifies handled addressable).mpr compact

end Addresses

section Soundness

variable {curve : Curve} {prv : PrivateKey curve} {draws : List UInt8 → List Draw}

/-- `Sign` ends with the numbers drawn, and what it returns verifies. -/
structure GenuineSignatures (prv : PrivateKey curve) (draws : List UInt8 → List Draw) : Prop where
  ends : ∀ hash, (Sm2Signatures.sign prv hash (draws hash)).isSome = true
  verified : ∀ hash r s, Sm2Signatures.sign prv hash (draws hash) = some (.ok (r, s)) →
    Sm2.verify curve (some prv.point) hash r s = .ok true

theorem verifies_of_invertible (cyclic : Cyclic curve) (genuine : GenuineSignatures prv draws)
    (invertible : prv.d + 1 ≠ curve.n) : Verifies prv draws := by
  intro hash
  obtain ⟨result, ended⟩ := Option.isSome_iff_exists.mp (genuine.ends hash)
  cases result with
  | error error =>
      rw [sign_eq_last_turn cyclic] at ended
      obtain ⟨k, _, turn⟩ := Option.bind_eq_some_iff.mp ended
      exact absurd turn (sign_turn_calm cyclic invertible error)
  | ok digits => exact ⟨digits, ended, genuine.verified hash _ _ ended⟩

/-- With the largest private number no packet is made. -/
theorem encode_packet_largest (cyclic : Cyclic curve) (largest : prv.d + 1 = curve.n) (ptype : UInt8)
    (req : Packet) (packet : List UInt8) : encodePacket prv draws ptype req ≠ .ok packet := by
  intro made
  unfold encodePacket at made
  cases body : rlpEncode req.writer with
  | error msg =>
      rw [body] at made
      cases made
  | ok bytes =>
      rw [body] at made
      dsimp only at made
      cases ended : Sm2Signatures.sign prv (Sm3.keccak256 [(headSpace ++ ptype :: bytes).drop headSize])
          (draws (Sm3.keccak256 [(headSpace ++ ptype :: bytes).drop headSize])) with
      | none =>
          rw [ended] at made
          cases made
      | some result =>
          rw [ended] at made
          cases result with
          | error error => cases made
          | ok digits =>
              rw [sign_eq_last_turn cyclic] at ended
              obtain ⟨k, last, turn⟩ := Option.bind_eq_some_iff.mp ended
              have below := (last_nonce_bounds cyclic last).2
              exact (sign_turn_ok cyclic below turn).invertible largest

/-- Every request comes back from its packet, every signature fits into the header
and its length into a byte, and the replies to the query are within the limit. -/
structure PacketsSound (prv : PrivateKey curve) (draws : List UInt8 → List Draw) (tab : State)
    (now later : Time) (query : Findnode) (fromID : NodeID) : Prop where
  roundTrip : ∀ req : Packet, req.rest = [] → req.rlp.length ≤ maxInt →
    ∃ packet, encodePacket prv draws req.ptype req = .ok packet ∧
      packet.dropLast.drop headSize = req.ptype :: req.rlp ∧
      ∀ behind, decodePacket curve packet behind =
        .ok (req, pubkeyID prv.point, packet.take macSize)
  signature : ∀ r s, 1 ≤ r → r < curve.n → 1 ≤ s → s < curve.n →
    (NodeKeys.sign prv (r, s)).length ≤ sigSize ∧
      (UInt8.ofNat (NodeKeys.sign prv (r, s)).length).toNat = (NodeKeys.sign prv (r, s)).length
  limit : ∀ sent, findnodeHandle tab now later query fromID = .ok sent →
    ∀ packet ∈ emitted prv draws sent, packet.length ≤ 1280

/-- Packets come back and stay within the limit exactly if the private number is not
the largest one and the entries that are sent are small. -/
theorem packets_sound_iff (curve : Curve) (lawful : Lawful curve) (cyclic : Cyclic curve)
    (prv : PrivateKey curve) (draws : List UInt8 → List Draw) (genuine : GenuineSignatures prv draws)
    (tab : State) (now later : Time) (query : Findnode) (fromID : NodeID)
    (addressable : ∀ sent, findnodeHandle tab now later query fromID = .ok sent →
      ∀ reply ∈ sent, (Packet.neighbors reply).rlp.length ≤ maxInt) :
    PacketsSound prv draws tab now later query fromID ↔
      prv.d + 1 ≠ curve.n ∧
        ∀ sent, findnodeHandle tab now later query fromID = .ok sent →
          Compact (tab.closest (keccak256Hash [query.target.1]) bucketSize) (expirationAt later) := by
  constructor
  · intro sound
    have invertible : prv.d + 1 ≠ curve.n := by
      intro largest
      obtain ⟨packet, made, _⟩ := sound.roundTrip (.findnode ⟨maxSizeNode.id, 0, []⟩) rfl
        (by decide +kernel)
      exact encode_packet_largest cyclic largest _ _ packet made
    have verifies := verifies_of_invertible cyclic genuine invertible
    refine ⟨invertible, fun sent handled => ?_⟩
    apply (findnode_within_limit_iff lawful verifies handled (addressable sent handled)).mp
    exact sound.limit sent handled
  · rintro ⟨invertible, compact⟩
    have verifies := verifies_of_invertible cyclic genuine invertible
    constructor
    · intro req empty small
      exact packet_decoded lawful verifies empty (Nat.lt_of_le_of_lt small (by decide))
    · intro r s _ rBelow _ sBelow
      have fits : (NodeKeys.sign prv (r, s)).length ≤ sigSize :=
        sign_data_length (marshal_length _) (Nat.lt_of_lt_of_le rBelow lawful.order)
          (Nat.lt_of_lt_of_le sBelow lawful.order)
      exact ⟨fits, length_byte fits⟩
    · intro sent handled
      apply (findnode_within_limit_iff lawful verifies handled (addressable sent handled)).mpr
      exact compact sent handled

end Soundness

section Dial

theorem dial_lawful : Lawful dial where
  field := by decide
  order := by decide
  commutes a b := by
    have same : a % 7 * b % 7 = b % 7 * a % 7 := by
      rw [Nat.mod_mul_mod, Nat.mod_mul_mod, Nat.mul_comm]
    simp only [dial, same]
  base k := ⟨Nat.mod_lt _ (by decide), Nat.mod_lt _ (by decide)⟩
  multiple a k := ⟨Nat.mod_lt _ (by decide), Nat.mod_lt _ (by decide)⟩
  onCurve _ _ _ := rfl

def dialNonce (rest : Nat) : Nat := if rest = 0 then 1 else rest

def dialDraws (hash : List UInt8) : List Draw :=
  [drawOf (UInt8.ofNat (dialNonce (ofBytes hash % 7) - 1))]

theorem dial_turn_rest (e k : Nat) : signTurn secondKey e k = signTurn secondKey (e % 7) k := by
  have same : signR dial e k = signR dial (e % 7) k := (Nat.add_mod_mod _ _ _).symm
  unfold signTurn signTurnWith
  rw [same]

theorem dial_turns : ∀ rest < 7,
    randFieldElement dial (drawOf (UInt8.ofNat (dialNonce rest - 1))) = dialNonce rest ∧
      (signTurn secondKey rest (dialNonce rest)).bind Except.toOption ≠ none ∧
      signR dial rest (dialNonce rest) + dialNonce rest ≠ dial.n ∧ dialNonce rest < dial.n := by
  decide +kernel

theorem dial_sign (hash : List UInt8) :
    Sm2Signatures.sign secondKey hash (dialDraws hash) =
      signTurn secondKey (ofBytes hash % 7) (dialNonce (ofBytes hash % 7)) := by
  obtain ⟨drawn, _⟩ := dial_turns _ (Nat.mod_lt (ofBytes hash) (by decide))
  rw [← dial_turn_rest, ← drawn]
  unfold Sm2Signatures.sign Sm2Signatures.signWith
  rw [if_neg dial_cyclic.prime.ne_zero]
  exact List.findSome?_singleton

theorem dial_genuine : GenuineSignatures secondKey dialDraws where
  ends hash := by
    obtain ⟨_, signed, _⟩ := dial_turns _ (Nat.mod_lt (ofBytes hash) (by decide))
    rw [dial_sign]
    cases turn : signTurn secondKey (ofBytes hash % 7) (dialNonce (ofBytes hash % 7)) with
    | none => exact absurd (by rw [turn]; rfl) signed
    | some result => rfl
  verified hash r s signed := by
    obtain ⟨_, _, apart, below⟩ := dial_turns _ (Nat.mod_lt (ofBytes hash) (by decide))
    rw [dial_sign, ← dial_turn_rest] at signed
    have turned := sign_turn_ok dial_cyclic below signed
    have first : r = signR dial (ofBytes hash % 7) (dialNonce (ofBytes hash % 7)) :=
      turned.first.trans (Nat.add_mod_mod _ _ _).symm
    rw [verify_signed dial_cyclic below turned, first, decide_eq_true apart]

end Dial

section Reported

/-- A node that answers a ping and asks for its neighbors is answered. -/
theorem query_answered {tab : State} {rn : RpcNode} {db : NodeID → Option Node}
    (stored : tab.db = Function.update db rn.id (some (nodeFromRPC rn).1)) {now : Time}
    {query : Findnode} (fresh : expired now query.expiration = false) (later : Time) :
    ∃ sent, findnodeHandle tab now later query rn.id = .ok sent := by
  have known : ¬(tab.db rn.id).isNone = true := by
    rw [stored, Function.update_self]
    exact Bool.false_ne_true
  unfold findnodeHandle
  rw [if_neg (by rw [fresh]; exact Bool.false_ne_true), if_neg known]
  exact ⟨_, rfl⟩

def home : Node := newNode ⟨List.replicate 64 0, rfl⟩ (some [127, 0, 0, 1]) 30303 30303

def reported (name : UInt8) (length : Nat) : RpcNode :=
  ⟨List.replicate length 1, 30303, 30303, ⟨List.replicate 64 name, List.length_replicate⟩⟩

def epoch : Time := Time.unix 0

def query : Findnode := ⟨⟨List.replicate 64 0, rfl⟩, 100, []⟩

theorem query_fresh : expired epoch query.expiration = false := by decide +kernel

theorem home_run : TableRun (newTable home) [] (newTable home) := .start

/-- A table with one node of a proper address is answered from within the limit. -/
theorem packets_sound_near :
    ∃ events tab, TableRun (newTable home) events tab ∧
      (∃ sent, findnodeHandle tab epoch epoch query (reported 1 4).id = .ok sent) ∧
      PacketsSound secondKey dialDraws tab epoch epoch query (reported 1 4).id := by
  obtain ⟨events, tab, run, _, entries, stored⟩ := reported_node_added home_run (reported 1 4)
    (by decide +kernel) (by rw [new_table_entries]; intro _ member; cases member)
    (by rw [new_table_entries]; decide)
  have short : ∀ n ∈ tab.closest (keccak256Hash [query.target.1]) bucketSize, ShortAddress n := by
    intro n member
    have entry := entries.mem_iff.mp (closest_mem tab member)
    rw [new_table_entries, List.mem_singleton] at entry
    rw [entry]
    change 4 ≤ 16
    decide
  have compact := compact_of_short (closest_length tab _ _) short (expirationAt epoch)
  refine ⟨events, tab, run, query_answered stored query_fresh epoch, ?_⟩
  refine (packets_sound_iff dial dial_lawful dial_cyclic secondKey dialDraws dial_genuine tab
    epoch epoch query _ fun sent handled => compact_addressable handled compact).mpr ?_
  exact ⟨by decide, fun _ _ => compact⟩

theorem node_passed_on (rn : RpcNode) (long : to4 rn.ip = none) :
    nodeToRPC (nodeFromRPC rn).1 = rn := by
  have parts : nodeToRPC (nodeFromRPC rn).1 = ⟨(to4 rn.ip).getD rn.ip, rn.udp, rn.tcp, rn.id⟩ := rfl
  rw [parts, long, Option.getD_none]

theorem far_node_size (name : UInt8) (known : name ∈ ([1, 2] : List UInt8)) :
    (nodeToRPC (nodeFromRPC (reported name 600)).1).rlp.length = 678 := by
  have long : to4 (List.replicate 600 1) = none := by decide +kernel
  have size : ∀ name ∈ ([1, 2] : List UInt8), (reported name 600).rlp.length = 678 := by
    decide +kernel
  rw [node_passed_on (reported name 600) long]
  exact size name known

/-- Two reported nodes come to be the whole table. -/
theorem far_table :
    ∃ events tab sent, TableRun (newTable home) events tab ∧
      findnodeHandle tab epoch epoch query (reported 2 600).id = .ok sent ∧
      tab.entries.Perm [(nodeFromRPC (reported 2 600)).1, (nodeFromRPC (reported 1 600)).1] := by
  obtain ⟨_, tab, run, self, entries, _⟩ := reported_node_added home_run (reported 1 600)
    (by decide +kernel) (by rw [new_table_entries]; intro _ member; cases member)
    (by rw [new_table_entries]; decide)
  rw [new_table_entries] at entries
  have fresh : ∀ entry ∈ tab.entries, entry.id ≠ (reported 2 600).id := by
    intro entry member
    rw [List.mem_singleton.mp (entries.mem_iff.mp member)]
    change (reported 1 600).id ≠ (reported 2 600).id
    decide +kernel
  obtain ⟨events, tab', run', _, entries', stored⟩ := reported_node_added run (reported 2 600)
    (by rw [self]; decide +kernel) fresh (by rw [entries.length_eq]; decide)
  obtain ⟨sent, handled⟩ := query_answered stored query_fresh epoch
  exact ⟨events, tab', sent, run', handled, entries'.trans (entries.cons _)⟩

/-- Two nodes are reported with addresses of 600 bytes, in two packets within the limit.
Both pass the checks, and a reply with both of them is beyond the limit. -/
theorem far_nodes_exceed_limit :
    (∀ name ∈ ([1, 2] : List UInt8), (nodeFromRPC (reported name 600)).2 = none ∧
      headSize + 1 + (Packet.neighbors ⟨[reported name 600], 100, []⟩).rlp.length + 1 ≤ 1280) ∧
    ∃ events tab sent, TableRun (newTable home) events tab ∧
      findnodeHandle tab epoch epoch query (reported 2 600).id = .ok sent ∧
      ∃ packet ∈ emitted secondKey dialDraws sent, 1280 < packet.length := by
  refine ⟨by decide +kernel, ?_⟩
  obtain ⟨events, tab, sent, run, handled, entries⟩ := far_table
  have size : nodesSize (tab.entries.map nodeToRPC) = 1356 := by
    rw [nodes_size_perm (entries.map nodeToRPC), nodesSize, List.map_cons, List.map_singleton,
      List.map_cons, List.map_singleton, far_node_size 1 (by decide), far_node_size 2 (by decide)]
    rfl
  have few : tab.entries.length ≤ 11 := by
    rw [entries.length_eq]
    decide
  have verifies : Verifies secondKey dialDraws :=
    verifies_of_invertible dial_cyclic dial_genuine (by decide)
  refine ⟨events, tab, sent, run, handled, ?_⟩
  exact large_entries_emitted dial_lawful verifies handled few (by omega) (by omega)

end Reported

end PbftBlock.FindnodeReplies
