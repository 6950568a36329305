import Mathlib.Data.List.FinRange
import PbftBlock.DiscoveryPackets
import PbftBlock.Library.GuardedRuns

/-!
# The table of the discovery protocol

The nodes that answered a ping lie in buckets by the distance of their hashed names
from the own one. What the goroutines do to the buckets under the lock, and to the
database of nodes, are the events of a machine; nothing is assumed about their
order.
-/

namespace PbftBlock.DiscoveryTable

open PbftBlock.Library.GuardedRuns PbftBlock.NodeKeys PbftBlock.Sm3 PbftBlock.DiscoveryPackets

set_option autoImplicit false

section Nodes

/-- A nil address is `none`. -/
structure Node where
  ip : Option (List UInt8)
  udp : UInt16
  tcp : UInt16
  id : NodeID
  sha : Bytes 32
deriving DecidableEq

structure UDPAddr where
  ip : Option (List UInt8)
  port : Nat
deriving DecidableEq

def v4InV6 : List UInt8 := List.replicate 10 0 ++ [0xFF, 0xFF]

def to4 (ip : List UInt8) : Option (List UInt8) :=
  if ip.length = 4 then some ip
  else if ip.length = 16 ∧ ip.take 12 = v4InV6 then some (ip.drop 12)
  else none

def ipEqual (ip x : List UInt8) : Bool :=
  if ip.length = x.length then ip = x
  else if ip.length = 4 ∧ x.length = 16 then x.take 12 = v4InV6 ∧ ip = x.drop 12
  else if ip.length = 16 ∧ x.length = 4 then ip.take 12 = v4InV6 ∧ ip.drop 12 = x
  else false

def isMulticast (ip : List UInt8) : Bool :=
  match to4 ip with
  | some ip4 => ip4.headD 0 &&& 0xF0 = 0xE0
  | none => ip.length = 16 ∧ ip.headD 0 = 0xFF

def isUnspecified (ip : List UInt8) : Bool :=
  ipEqual ip (v4InV6 ++ List.replicate 4 0) || ipEqual ip (List.replicate 16 0)

def keccak256Hash (data : List (List UInt8)) : Bytes 32 := ⟨keccak256 data, keccak256_length data⟩

def newNode (id : NodeID) (ip : Option (List UInt8)) (udpPort tcpPort : UInt16) : Node where
  ip := ip.map fun ip => (to4 ip).getD ip
  udp := udpPort
  tcp := tcpPort
  id := id
  sha := keccak256Hash [id.1]

def Node.addr (n : Node) : UDPAddr := ⟨n.ip, n.udp.toNat⟩

/-- The text of the error. The check of the key at the end never fails. -/
def Node.validateComplete (n : Node) : Option String :=
  match n.ip with
  | none => some "incomplete node"
  | some ip =>
      if n.udp = 0 then some "missing UDP port"
      else if n.tcp = 0 then some "missing TCP port"
      else if isMulticast ip || isUnspecified ip then some "invalid IP (multicast/unspecified)"
      else none

/-- The address of a decoded node is never nil. -/
def nodeFromRPC (rn : RpcNode) : Node × Option String :=
  let n := newNode rn.id (some rn.ip) rn.udp rn.tcp
  (n, n.validateComplete)

def nodeToRPC (n : Node) : RpcNode := ⟨n.ip.getD [], n.udp, n.tcp, n.id⟩

end Nodes

section Distances

/-- Compares the distances of `a` and `b` to the target at the first byte that tells
them apart. -/
def distcmp : List UInt8 → List UInt8 → List UInt8 → Int
  | t :: target, x :: a, y :: b =>
      let da := x ^^^ t
      let db := y ^^^ t
      if da > db then 1 else if da < db then -1 else distcmp target a b
  | _, _, _ => 0

def lzcount : List Nat :=
  [8, 7] ++ List.replicate 2 6 ++ List.replicate 4 5 ++ List.replicate 8 4 ++
    List.replicate 16 3 ++ List.replicate 32 2 ++ List.replicate 64 1 ++ List.replicate 128 0

def sharedZeros : List UInt8 → List UInt8 → Nat
  | x :: a, y :: b =>
      if x ^^^ y = 0 then 8 + sharedZeros a b else lzcount.getD (x ^^^ y).toNat 0
  | _, _ => 0

def bucketSize : Nat := 16
def nBuckets : Nat := 257

def logdist (a b : Bytes 32) : Fin nBuckets :=
  ⟨256 - sharedZeros a.1 b.1, Nat.lt_succ_of_le (Nat.sub_le _ _)⟩

def searchLoop (f : Nat → Bool) (i j : Nat) : Nat :=
  if i < j then
    if f ((i + j) / 2) then searchLoop f i ((i + j) / 2) else searchLoop f ((i + j) / 2 + 1) j
  else i
termination_by j - i

def search (n : Nat) (f : Nat → Bool) : Nat := searchLoop f 0 n

theorem search_loop_le (f : Nat → Bool) {i j : Nat} (less : i ≤ j) : searchLoop f i j ≤ j := by
  fun_induction searchLoop f i j with
  | case1 i j more found induction => exact Nat.le_trans (induction (by omega)) (by omega)
  | case2 i j more passed induction => exact induction (by omega)
  | case3 i j done => exact less

theorem search_le (n : Nat) (f : Nat → Bool) : search n f ≤ n := search_loop_le f (Nat.zero_le n)

/-- The entries are ordered by their distance to the target. -/
def push (target : Bytes 32) (maxElems : Nat) (entries : List Node) (n : Node) : List Node :=
  let ix := search entries.length fun i =>
    0 < distcmp target.1 (entries.getD i n).sha.1 n.sha.1
  let grown := if entries.length < maxElems then entries ++ [n] else entries
  if ix = grown.length then grown else grown.take ix ++ n :: (grown.drop ix).dropLast

variable {target : Bytes 32} {maxElems : Nat} {entries : List Node}

theorem push_perm (room : entries.length < maxElems) (n : Node) :
    (push target maxElems entries n).Perm (n :: entries) := by
  have place := search_le entries.length fun i =>
    0 < distcmp target.1 (entries.getD i n).sha.1 n.sha.1
  rw [push, if_pos room, if_neg (by rw [List.length_append, List.length_singleton]; omega),
    List.take_append_of_le_length place, List.drop_append_of_le_length place,
    List.dropLast_concat]
  refine List.perm_middle.trans ?_
  rw [List.take_append_drop]

theorem push_length (full : entries.length ≤ maxElems) (n : Node) :
    (push target maxElems entries n).length ≤ maxElems := by
  have place := search_le entries.length fun i =>
    0 < distcmp target.1 (entries.getD i n).sha.1 n.sha.1
  by_cases room : entries.length < maxElems
  · rw [(push_perm room n).length_eq, List.length_cons]
    omega
  · rw [push, if_neg room]
    split_ifs with last
    · exact full
    · rw [List.length_append, List.length_cons, List.length_dropLast, List.length_take,
        List.length_drop]
      omega

theorem push_mem {n other : Node} (member : other ∈ push target maxElems entries n) :
    other = n ∨ other ∈ entries := by
  by_cases room : entries.length < maxElems
  · exact List.mem_cons.mp ((push_perm room n).mem_iff.mp member)
  · rw [push, if_neg room] at member
    split_ifs at member with last
    · exact Or.inr member
    · rcases List.mem_append.mp member with early | late
      · exact Or.inr (List.mem_of_mem_take early)
      · rcases List.mem_cons.mp late with same | late
        · exact Or.inl same
        · exact Or.inr (List.mem_of_mem_drop ((List.dropLast_sublist _).mem late))

end Distances

section Machine

/-- The entry that was active last is the first. -/
abbrev Bucket := { entries : List Node // entries.length ≤ bucketSize }

def Bucket.contains (b : Bucket) (id : NodeID) : Bool := b.1.any fun entry => entry.id = id

def Bucket.without (b : Bucket) (id : NodeID) : Bucket :=
  ⟨b.1.eraseP fun entry => entry.id = id, Nat.le_trans List.length_eraseP_le b.2⟩

/-- Moves the node to the front; `none` if it is not there. -/
def Bucket.bump (b : Bucket) (n : Node) : Option Bucket :=
  if there : b.contains n.id then
    some ⟨n :: b.1.eraseP fun entry => entry.id = n.id, by
      obtain ⟨entry, member, same⟩ := List.any_eq_true.mp there
      have shorter := List.length_eraseP_of_mem (p := fun entry => entry.id = n.id) member same
      have some := List.length_pos_of_mem member
      have full := b.2
      rw [List.length_cons, shorter]
      omega⟩
  else none

/-- Puts the node to the front, in the place of `last` if the bucket is full;
`none` if it does not. -/
def Bucket.replace (b : Bucket) (n : Node) (last : Option NodeID) : Option Bucket :=
  if b.contains n.id then none
  else if b.1.length = bucketSize ∧ (b.1.getLast?.map Node.id ≠ last) then none
  else some ⟨n :: b.1.take (bucketSize - 1), by
    simp only [List.length_cons, List.length_take, bucketSize]
    omega⟩

/-- The table and the database of nodes. `replacing` are the calls of `add` that ping
the oldest entry of a full bucket, and `bonded` the nodes that `bond` came up with. -/
structure State where
  self : Node
  buckets : Fin nBuckets → Bucket
  db : NodeID → Option Node
  replacing : List (Node × NodeID)
  bonded : List Node

def newTable (self : Node) : State where
  self := self
  buckets _ := ⟨[], Nat.zero_le _⟩
  db _ := none
  replacing := []
  bonded := []

inductive Event where
  /-- The ping of `bond` was answered: the node is stored under its address. -/
  | pingpong (id : NodeID) (addr : UDPAddr) (tcpPort : UInt16)
  /-- `bond` finds the node in the database and does not ping it. -/
  | known (id : NodeID)
  /-- `add` up to the ping, with the mark it finds on the oldest entry. -/
  | add (n : Node) (contested : Bool)
  /-- `add` after its ping. -/
  | pinged (k : Nat) (answered : Bool)
  | stuff (nodes : List Node)
  | delete (n : Node)
  /-- The database drops a node. -/
  | expire (id : NodeID)

def State.bucketOf (tab : State) (n : Node) : Fin nBuckets := logdist tab.self.sha n.sha

def State.setBucket (tab : State) (i : Fin nBuckets) (b : Bucket) : State :=
  { tab with buckets := Function.update tab.buckets i b }

def State.replaceIn (tab : State) (n : Node) (last : Option NodeID) : State :=
  match (tab.buckets (tab.bucketOf n)).replace n last with
  | some b => tab.setBucket (tab.bucketOf n) b
  | none => tab

def State.add (tab : State) (n : Node) (contested : Bool) : State :=
  let b := tab.buckets (tab.bucketOf n)
  match b.bump n with
  | some bumped => tab.setBucket (tab.bucketOf n) bumped
  | none =>
      match b.1[bucketSize - 1]? with
      | none => tab.replaceIn n none
      | some oldest =>
          if contested then tab else { tab with replacing := tab.replacing ++ [(n, oldest.id)] }

def State.stuffNode (tab : State) (n : Node) : State :=
  let b := tab.buckets (tab.bucketOf n)
  if n.id = tab.self.id then tab
  else if b.contains n.id then tab
  else if room : b.1.length < bucketSize then
    tab.setBucket (tab.bucketOf n) ⟨b.1 ++ [n], by rw [List.length_append]; exact room⟩
  else tab

def step (tab : State) : Event → Option State
  | .pingpong id addr tcpPort =>
      let n := newNode id addr.ip (UInt16.ofNat addr.port) tcpPort
      if id = tab.self.id then none
      else some { tab with db := Function.update tab.db id (some n), bonded := tab.bonded ++ [n] }
  | .known id => (tab.db id).map fun n => { tab with bonded := tab.bonded ++ [n] }
  | .add n contested => some (tab.add n contested)
  | .pinged k answered =>
      match tab.replacing[k]? with
      | none => none
      | some (n, oldest) =>
          let tab := { tab with replacing := tab.replacing.eraseIdx k }
          some (if answered then tab else tab.replaceIn n (some oldest))
  | .stuff nodes => some (nodes.foldl State.stuffNode tab)
  | .delete n => some (tab.setBucket (tab.bucketOf n) ((tab.buckets (tab.bucketOf n)).without n.id))
  | .expire id => some { tab with db := Function.update tab.db id none }

/-- Only nodes that `bond` came up with are given to the table. -/
def Allowed (tab : State) : Event → Prop
  | .add n _ => n ∈ tab.bonded
  | .stuff nodes => ∀ n ∈ nodes, n ∈ tab.bonded
  | _ => True

abbrev TableRun := Run step Allowed

def State.entries (tab : State) : List Node :=
  (List.finRange nBuckets).flatMap fun i => (tab.buckets i).1

def State.closest (tab : State) (target : Bytes 32) (nresults : Nat) : List Node :=
  tab.entries.foldl (push target nresults) []

end Machine

section Closest

variable {target : Bytes 32} {nresults : Nat}

theorem fold_push_mem (nodes entries : List Node) {n : Node}
    (member : n ∈ nodes.foldl (push target nresults) entries) : n ∈ entries ∨ n ∈ nodes := by
  induction nodes generalizing entries with
  | nil => exact Or.inl member
  | cons first nodes induction =>
      rcases induction _ member with early | late
      · rcases push_mem early with rfl | old
        · exact Or.inr List.mem_cons_self
        · exact Or.inl old
      · exact Or.inr (List.mem_cons_of_mem first late)

theorem fold_push_length (nodes entries : List Node) (full : entries.length ≤ nresults) :
    (nodes.foldl (push target nresults) entries).length ≤ nresults := by
  induction nodes generalizing entries with
  | nil => exact full
  | cons first nodes induction => exact induction _ (push_length full first)

theorem fold_push_perm (nodes entries : List Node)
    (room : entries.length + nodes.length ≤ nresults) :
    (nodes.foldl (push target nresults) entries).Perm (entries ++ nodes) := by
  induction nodes generalizing entries with
  | nil => simp
  | cons first nodes induction =>
      rw [List.length_cons] at room
      have pushed : (push target nresults entries first).Perm (first :: entries) :=
        push_perm (by omega) first
      have size := pushed.length_eq
      rw [List.length_cons] at size
      refine (induction _ (by omega)).trans ?_
      exact (pushed.append_right nodes).trans List.perm_middle.symm

variable (tab : State)

theorem closest_mem {n : Node} (member : n ∈ tab.closest target nresults) : n ∈ tab.entries := by
  rcases fold_push_mem _ _ member with none | entry
  · cases none
  · exact entry

theorem closest_length (target : Bytes 32) (nresults : Nat) :
    (tab.closest target nresults).length ≤ nresults :=
  fold_push_length _ _ (Nat.zero_le _)

theorem closest_perm (target : Bytes 32) (nresults : Nat)
    (few : tab.entries.length ≤ nresults) :
    (tab.closest target nresults).Perm tab.entries :=
  fold_push_perm _ _ (by rwa [List.length_nil, Nat.zero_add])

end Closest

section Contents

variable {tab : State} {b b' : Bucket} {n entry : Node}

theorem bump_mem (bumped : b.bump n = some b') (member : entry ∈ b'.1) :
    entry = n ∨ entry ∈ b.1 := by
  unfold Bucket.bump at bumped
  split_ifs at bumped with there
  obtain rfl := Option.some.inj bumped
  exact (List.mem_cons.mp member).imp id List.mem_of_mem_eraseP

theorem replace_mem {last : Option NodeID} (replaced : b.replace n last = some b')
    (member : entry ∈ b'.1) : entry = n ∨ entry ∈ b.1 := by
  unfold Bucket.replace at replaced
  split_ifs at replaced with there full
  obtain rfl := Option.some.inj replaced
  exact (List.mem_cons.mp member).imp id List.mem_of_mem_take

structure Throughout (P : Node → Prop) (tab : State) : Prop where
  buckets : ∀ i, ∀ n ∈ (tab.buckets i).1, P n
  db : ∀ id n, tab.db id = some n → P n
  replacing : ∀ pair ∈ tab.replacing, P pair.1
  bonded : ∀ n ∈ tab.bonded, P n

variable {P : Node → Prop}

theorem throughout_set_bucket (kept : Throughout P tab) {i : Fin nBuckets}
    (each : ∀ entry ∈ b.1, P entry) : Throughout P (tab.setBucket i b) where
  buckets j entry member := by
    by_cases same : j = i
    · subst same
      apply each
      simpa [State.setBucket] using member
    · apply kept.buckets j
      simpa [State.setBucket, Function.update_of_ne same] using member
  db := kept.db
  replacing := kept.replacing
  bonded := kept.bonded

theorem throughout_replace_in (kept : Throughout P tab) (good : P n) (last : Option NodeID) :
    Throughout P (tab.replaceIn n last) := by
  unfold State.replaceIn
  cases replaced : (tab.buckets (tab.bucketOf n)).replace n last with
  | none => exact kept
  | some b =>
      apply throughout_set_bucket kept
      intro entry member
      rcases replace_mem replaced member with rfl | old
      · exact good
      · exact kept.buckets _ entry old

theorem throughout_add (kept : Throughout P tab) (good : P n) (contested : Bool) :
    Throughout P (tab.add n contested) := by
  unfold State.add
  dsimp only
  cases bumped : (tab.buckets (tab.bucketOf n)).bump n with
  | some b =>
      apply throughout_set_bucket kept
      intro entry member
      rcases bump_mem bumped member with rfl | old
      · exact good
      · exact kept.buckets _ entry old
  | none =>
      cases full : (tab.buckets (tab.bucketOf n)).1[bucketSize - 1]? with
      | none => exact throughout_replace_in kept good none
      | some oldest =>
          dsimp only
          split_ifs
          · exact kept
          · refine ⟨kept.buckets, kept.db, fun pair member => ?_, kept.bonded⟩
            rcases List.mem_append.mp member with old | fresh
            · exact kept.replacing pair old
            · rw [List.mem_singleton.mp fresh]
              exact good

theorem throughout_stuff_node (kept : Throughout P tab) (good : P n) :
    Throughout P (tab.stuffNode n) := by
  unfold State.stuffNode
  dsimp only
  split_ifs
  · exact kept
  · exact kept
  · apply throughout_set_bucket kept
    intro entry member
    rcases List.mem_append.mp member with old | fresh
    · exact kept.buckets _ entry old
    · rw [List.mem_singleton.mp fresh]
      exact good
  · exact kept

theorem throughout_stuff (kept : Throughout P tab) {nodes : List Node}
    (good : ∀ n ∈ nodes, P n) : Throughout P (nodes.foldl State.stuffNode tab) := by
  induction nodes generalizing tab with
  | nil => exact kept
  | cons first nodes induction =>
      apply induction (throughout_stuff_node kept (good first List.mem_cons_self))
      exact fun n member => good n (List.mem_cons_of_mem first member)

theorem stored_update (kept : Throughout P tab) {id : NodeID} {entry : Option Node}
    (good : ∀ n, entry = some n → P n) :
    ∀ other n, Function.update tab.db id entry other = some n → P n := by
  intro other n found
  by_cases same : other = id
  · subst same
    rw [Function.update_self] at found
    exact good n found
  · rw [Function.update_of_ne same] at found
    exact kept.db other n found

theorem throughout_bonded (kept : Throughout P tab) {db : NodeID → Option Node}
    (stored : ∀ id n, db id = some n → P n) (good : P n) :
    Throughout P { tab with db := db, bonded := tab.bonded ++ [n] } where
  buckets := kept.buckets
  db := stored
  replacing := kept.replacing
  bonded other member := by
    rcases List.mem_append.mp member with old | fresh
    · exact kept.bonded other old
    · rw [List.mem_singleton.mp fresh]
      exact good

def Brings (P : Node → Prop) : Event → Prop
  | .pingpong id addr tcpPort => P (newNode id addr.ip (UInt16.ofNat addr.port) tcpPort)
  | _ => True

theorem throughout_step {event : Event} {after : State} (kept : Throughout P tab)
    (allowed : Allowed tab event) (brings : Brings P event)
    (stepped : step tab event = some after) : Throughout P after := by
  cases event with
  | pingpong id addr tcpPort =>
      unfold step at stepped
      dsimp only at stepped
      split_ifs at stepped with self
      obtain rfl := Option.some.inj stepped
      refine throughout_bonded kept (stored_update kept fun n same => ?_) brings
      obtain rfl := Option.some.inj same
      exact brings
  | known id =>
      obtain ⟨n, found, rfl⟩ := Option.map_eq_some_iff.mp stepped
      exact throughout_bonded kept kept.db (kept.db id n found)
  | add n contested =>
      obtain rfl := Option.some.inj stepped
      exact throughout_add kept (kept.bonded n allowed) contested
  | pinged k answered =>
      unfold step at stepped
      dsimp only at stepped
      cases waiting : tab.replacing[k]? with
      | none =>
          rw [waiting] at stepped
          cases stepped
      | some pair =>
          obtain ⟨n, oldest⟩ := pair
          rw [waiting] at stepped
          obtain rfl := Option.some.inj stepped
          have good : P n := kept.replacing (n, oldest) (List.mem_of_getElem? waiting)
          have fewer : Throughout P { tab with replacing := tab.replacing.eraseIdx k } :=
            ⟨kept.buckets, kept.db,
              fun pair member => kept.replacing pair (List.mem_of_mem_eraseIdx member), kept.bonded⟩
          split_ifs
          · exact fewer
          · exact throughout_replace_in fewer good (some oldest)
  | stuff nodes =>
      obtain rfl := Option.some.inj stepped
      exact throughout_stuff kept fun n member => kept.bonded n (allowed n member)
  | delete n =>
      obtain rfl := Option.some.inj stepped
      apply throughout_set_bucket kept
      intro entry member
      exact kept.buckets _ entry (List.mem_of_mem_eraseP member)
  | expire id =>
      obtain rfl := Option.some.inj stepped
      refine ⟨kept.buckets, stored_update kept fun n none => ?_, kept.replacing, kept.bonded⟩
      cases none

theorem throughout_new_table (self : Node) : Throughout P (newTable self) where
  buckets _ _ member := by cases member
  db _ _ found := by cases found
  replacing _ member := by cases member
  bonded _ member := by cases member

/-- What holds of the nodes that answer pings holds of every node the table ever
keeps. -/
theorem throughout_run {self : Node} {events : List Event} {last : State}
    (run : Run step (fun tab event => Allowed tab event ∧ Brings P event) (newTable self) events
      last) : Throughout P last := by
  refine run_invariant (Throughout P) ?_ run (throughout_new_table self)
  intro tab event after guard stepped kept
  exact throughout_step kept guard.1 guard.2 stepped

theorem entries_throughout (kept : Throughout P tab) : ∀ n ∈ tab.entries, P n := by
  intro n member
  obtain ⟨i, _, entry⟩ := List.mem_flatMap.mp member
  exact kept.buckets i n entry

end Contents

section Adding

variable {tab : State} {n : Node}

theorem flat_map_update_perm {ι α : Type} [DecidableEq ι] (f : ι → List α) (i : ι) (added : α)
    (indices : List ι) (once : indices.Nodup) (member : i ∈ indices) :
    (indices.flatMap (Function.update f i (added :: f i))).Perm
      (added :: indices.flatMap f) := by
  induction indices with
  | nil => cases member
  | cons first rest induction =>
      obtain ⟨absent, once⟩ := List.nodup_cons.mp once
      rw [List.flatMap_cons, List.flatMap_cons]
      rcases List.mem_cons.mp member with rfl | later
      · have others : rest.flatMap (Function.update f i (added :: f i)) = rest.flatMap f := by
          apply List.flatMap_congr
          intro j inside
          apply Function.update_of_ne
          rintro rfl
          exact absent inside
        rw [Function.update_self, others, List.cons_append]
      · have apart : first ≠ i := by
          rintro rfl
          exact absent later
        rw [Function.update_of_ne apart]
        exact ((induction once later).append_left (f first)).trans List.perm_middle

theorem add_fresh (tab : State) (n : Node) (fresh : ∀ entry ∈ tab.entries, entry.id ≠ n.id)
    (room : (tab.buckets (tab.bucketOf n)).1.length < bucketSize) (contested : Bool) :
    ∃ b : Bucket, b.1 = n :: (tab.buckets (tab.bucketOf n)).1 ∧
      tab.add n contested = tab.setBucket (tab.bucketOf n) b := by
  have absent : (tab.buckets (tab.bucketOf n)).contains n.id = false := by
    rw [Bucket.contains, List.any_eq_false]
    intro entry member same
    apply fresh entry _ (of_decide_eq_true same)
    exact List.mem_flatMap.mpr ⟨_, List.mem_finRange _, member⟩
  have whole : (tab.buckets (tab.bucketOf n)).1.take (bucketSize - 1) =
      (tab.buckets (tab.bucketOf n)).1 := List.take_of_length_le (by omega)
  have beyond : (tab.buckets (tab.bucketOf n)).1[bucketSize - 1]? = none :=
    List.getElem?_eq_none (by omega)
  have unbumped : (tab.buckets (tab.bucketOf n)).bump n = none := by
    rw [Bucket.bump, dif_neg (by simp [absent])]
  obtain ⟨b, replaced, front⟩ : ∃ b, (tab.buckets (tab.bucketOf n)).replace n none = some b ∧
      b.1 = n :: (tab.buckets (tab.bucketOf n)).1 := by
    rw [Bucket.replace, if_neg (by simp [absent]), if_neg (by omega)]
    exact ⟨_, rfl, congrArg _ whole⟩
  refine ⟨b, front, ?_⟩
  rw [State.add, unbumped, beyond]
  dsimp only
  rw [State.replaceIn, replaced]

theorem set_bucket_front_perm {i : Fin nBuckets} {b : Bucket} (front : b.1 = n :: (tab.buckets i).1) :
    (tab.setBucket i b).entries.Perm (n :: tab.entries) := by
  have updated : (fun j => ((tab.setBucket i b).buckets j).1) =
      Function.update (fun j => (tab.buckets j).1) i (n :: (tab.buckets i).1) := by
    funext j
    by_cases same : j = i
    · subst same
      rw [Function.update_self, ← front]
      exact congrArg Subtype.val (Function.update_self _ _ _)
    · rw [Function.update_of_ne same]
      exact congrArg Subtype.val (Function.update_of_ne same _ _)
  rw [State.entries, updated]
  exact flat_map_update_perm _ _ _ _ (List.nodup_finRange _) (List.mem_finRange _)

theorem bucket_length_le (tab : State) (i : Fin nBuckets) :
    (tab.buckets i).1.length ≤ tab.entries.length := by
  have part : (tab.buckets i).1 ∈ (List.finRange nBuckets).map fun i => (tab.buckets i).1 :=
    List.mem_map_of_mem (List.mem_finRange i)
  rw [State.entries, List.flatMap_def]
  exact (List.sublist_flatten_of_mem part).length_le

theorem new_table_entries (self : Node) : (newTable self).entries = [] := by
  apply List.flatMap_eq_nil_iff.mpr
  intro i _
  rfl

theorem to4_twice (ip : List UInt8) :
    (to4 ((to4 ip).getD ip)).getD ((to4 ip).getD ip) = (to4 ip).getD ip := by
  cases short : to4 ip with
  | none => rw [Option.getD_none, short, Option.getD_none]
  | some ip4 =>
      have size : ip4.length = 4 := by
        unfold to4 at short
        split_ifs at short with four long
        · rw [← Option.some.inj short]
          exact four
        · rw [← Option.some.inj short, List.length_drop]
          omega
      rw [Option.getD_some, to4, if_pos size, Option.getD_some]

/-- The node under whose address `bond` stores it is the reported one. -/
theorem reported_node_stored (rn : RpcNode) :
    newNode rn.id (nodeFromRPC rn).1.addr.ip (UInt16.ofNat (nodeFromRPC rn).1.addr.port) rn.tcp =
      (nodeFromRPC rn).1 := by
  have ip : ((some rn.ip).map fun ip => (to4 ip).getD ip).map (fun ip => (to4 ip).getD ip) =
      (some rn.ip).map fun ip => (to4 ip).getD ip := congrArg some (to4_twice rn.ip)
  have port : UInt16.ofNat rn.udp.toNat = rn.udp := UInt16.ofNat_toNat
  simp only [nodeFromRPC, newNode, Node.addr, ip, port]

/-- A reported node that answers a ping gets into the table, whatever its address. -/
theorem reported_node_added {first : State} {events : List Event} (run : TableRun first events tab)
    (rn : RpcNode) (other : rn.id ≠ tab.self.id) (fresh : ∀ entry ∈ tab.entries, entry.id ≠ rn.id)
    (few : tab.entries.length < bucketSize) :
    ∃ more after, TableRun first more after ∧ after.self = tab.self ∧
      after.entries.Perm ((nodeFromRPC rn).1 :: tab.entries) ∧
      after.db = Function.update tab.db rn.id (some (nodeFromRPC rn).1) := by
  let bonding : State := { tab with
    db := Function.update tab.db rn.id (some (nodeFromRPC rn).1)
    bonded := tab.bonded ++ [(nodeFromRPC rn).1] }
  have answered : step tab (.pingpong rn.id (nodeFromRPC rn).1.addr rn.tcp) = some bonding := by
    rw [step, reported_node_stored, if_neg other]
  have room : (bonding.buckets (bonding.bucketOf (nodeFromRPC rn).1)).1.length < bucketSize :=
    Nat.lt_of_le_of_lt (bucket_length_le bonding _) few
  obtain ⟨b, front, added⟩ := add_fresh bonding (nodeFromRPC rn).1 fresh room false
  have bonded : Allowed bonding (.add (nodeFromRPC rn).1 false) :=
    List.mem_append_right _ List.mem_cons_self
  have anyone : Allowed tab (.pingpong rn.id (nodeFromRPC rn).1.addr rn.tcp) := trivial
  have ran := Run.next _ run anyone answered
  have placed := Run.next _ ran bonded (congrArg some added)
  exact ⟨_, _, placed, rfl, set_bucket_front_perm front, rfl⟩

end Adding

end PbftBlock.DiscoveryTable
