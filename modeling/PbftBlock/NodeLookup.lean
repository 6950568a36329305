import Mathlib.Data.List.Dedup
import Mathlib.Data.List.Perm.Subperm
import PbftBlock.DiscoveryTable
import PbftBlock.Library.BigEndian
import PbftBlock.Library.SmallestFirst
import PbftBlock.RlpDecoders

/-!
# Searching the network for nodes

`lookup` of `p2p/discover/table.go` asks the nodes closest to a target for nodes that are closer
still. Up to three questions are on their way at a time; the replies come in any order and hold
whatever nodes answered when they were bonded with. `Resolve` and `ReadRandomNodes` of the same
file are below.
-/

namespace PbftBlock.NodeLookup

open PbftBlock.DiscoveryTable PbftBlock.Library.BigEndian PbftBlock.Library.GuardedRuns
  PbftBlock.Library.SmallestFirst PbftBlock.NodeKeys PbftBlock.RlpDecoders PbftBlock.Sm3

set_option autoImplicit false

section Transcription

def alpha : ℕ := 3

/-- The variables of `lookup`. `pending` are the nodes that have not replied; the source only
counts them. -/
structure Lookup where
  asked : List NodeID
  seen : List NodeID
  pending : List NodeID
  result : List Node

def Lookup.ask (s : Lookup) (n : Node) : Lookup :=
  if s.pending.length < alpha ∧ n.id ∉ s.asked then
    { s with asked := n.id :: s.asked, pending := n.id :: s.pending }
  else s

/-- The loop that asks the closest nodes that were not asked yet. -/
def Lookup.askClosest (s : Lookup) : Lookup := s.result.foldl Lookup.ask s

/-- Up to the first reply, from the table that is not empty or was refreshed. -/
def startLookup (tab : State) (target : Bytes 32) : Lookup :=
  Lookup.askClosest ⟨[tab.self.id], [], [], tab.closest target bucketSize⟩

def Lookup.receive (target : Bytes 32) (s : Lookup) (n : Node) : Lookup :=
  if n.id ∈ s.seen then s
  else { s with seen := n.id :: s.seen, result := push target bucketSize s.result n }

/-- What `bondall` returns for the nodes that were sent, or nothing if no reply came. -/
structure Reply where
  sender : NodeID
  nodes : List Node

def Lookup.take (target : Bytes 32) (s : Lookup) (reply : Reply) : Lookup :=
  let received := reply.nodes.foldl (Lookup.receive target) s
  { received with pending := received.pending.erase reply.sender }

def lookupStep (target : Bytes 32) (s : Lookup) (reply : Reply) : Option Lookup :=
  if reply.sender ∈ s.pending then some (s.take target reply).askClosest else none

/-- The replies that have come in the order in which they were read. The lookup is over when
nothing is pending. -/
abbrev LookupRun (tab : State) (target : Bytes 32) :=
  Run (lookupStep target) (fun _ _ => True) (startLookup tab target)

def resolve (tab : State) (targetID : NodeID) (found : List Node) : Option Node :=
  match tab.closest (keccak256Hash [targetID.1]) 1 with
  | n :: _ => if n.id = targetID then some n else found.find? fun n => n.id = targetID
  | [] => found.find? fun n => n.id = targetID

/-- The loop that shuffles the buckets, from the index `i` down; `draw` are the random words. -/
def shuffle (draw : ℕ → ℕ) : ℕ → List (List Node) → List (List Node)
  | 0, buckets => buckets
  | i + 1, buckets => shuffle draw i (buckets.swap (i + 1) (draw (i + 1) % (i + 1)))

/-- The loop of `ReadRandomNodes` for `slots` more nodes, from the bucket at `j`: the nodes
written, and whether the loop ended for want of nodes. `none` is a panic. -/
def fillSlots : ℕ → List (List Node) → ℕ → Option (List Node × Bool)
  | 0, _, _ => some ([], false)
  | slots + 1, buckets, j =>
      match buckets[j]? with
      | some (n :: rest) =>
          let buckets := if rest = [] then buckets.eraseIdx j else buckets.set j rest
          if buckets = [] then some ([n], true)
          else (fillSlots slots buckets ((j + 1) % buckets.length)).map fun filled =>
            (n :: filled.1, filled.2)
      | _ => none

/-- `ReadRandomNodes` for a buffer with `slots` places: the nodes written and the number
returned. -/
def readRandomNodes (tab : State) (draw : ℕ → ℕ) (slots : ℕ) : Option (List Node × ℕ) :=
  let buckets := ((List.finRange nBuckets).map fun i => (tab.buckets i).1).filter fun b => b ≠ []
  if buckets = [] then some ([], 0)
  else (fillSlots slots (shuffle draw (buckets.length - 1) buckets) 0).map fun filled =>
    (filled.1, if filled.2 then filled.1.length else slots + 1)

end Transcription

/-! ## Distances -/

section Distances

def distance (target sha : List UInt8) : ℕ := ofBytes (List.zipWith (· ^^^ ·) sha target)

theorem distcmp_pos_iff {target a b : List UInt8} (first : a.length = target.length)
    (second : b.length = target.length) :
    0 < distcmp target a b ↔ distance target b < distance target a := by
  induction target generalizing a b with
  | nil =>
      obtain rfl := List.length_eq_zero_iff.mp first
      obtain rfl := List.length_eq_zero_iff.mp second
      decide
  | cons t target induction =>
      obtain ⟨x, a, rfl⟩ := List.exists_cons_of_length_eq_add_one first
      obtain ⟨y, b, rfl⟩ := List.exists_cons_of_length_eq_add_one second
      have lengthA : a.length = target.length := Nat.succ.inj first
      have lengthB : b.length = target.length := Nat.succ.inj second
      have below (c : List UInt8) (length : c.length = target.length) :
          distance target c < 256 ^ target.length := by
        have small := of_bytes_lt (List.zipWith (· ^^^ ·) c target)
        rwa [List.length_zipWith, length, Nat.min_self] at small
      have value (z : UInt8) (c : List UInt8) (length : c.length = target.length) :
          distance (t :: target) (z :: c) =
            (z ^^^ t).toNat * 256 ^ target.length + distance target c := by
        rw [distance, List.zipWith_cons_cons, of_bytes_cons, List.length_zipWith, length,
          Nat.min_self]
        rfl
      have belowA := below a lengthA
      have belowB := below b lengthB
      rw [value x a lengthA, value y b lengthB, distcmp]
      generalize 256 ^ target.length = power at belowA belowB ⊢
      split_ifs with more less
      · rw [gt_iff_lt, UInt8.lt_iff_toNat_lt] at more
        have step := Nat.mul_le_mul_right power more
        rw [Nat.succ_mul] at step
        constructor
        · intro _
          omega
        · intro _
          decide
      · rw [UInt8.lt_iff_toNat_lt] at less
        have step := Nat.mul_le_mul_right power less
        rw [Nat.succ_mul] at step
        constructor
        · intro positive
          cases positive
        · intro smaller
          omega
      · have same : (x ^^^ t).toNat = (y ^^^ t).toNat := by
          rw [gt_iff_lt, UInt8.lt_iff_toNat_lt] at more
          rw [UInt8.lt_iff_toNat_lt] at less
          omega
        rw [induction lengthA lengthB, same]
        omega

theorem search_loop_spec {f : ℕ → Bool} {n i j : ℕ} (inside : j ≤ n) (ordered : i ≤ j)
    (rising : ∀ a b, a ≤ b → b < n → f a = true → f b = true) (low : ∀ m < i, f m = false)
    (high : ∀ m, j ≤ m → m < n → f m = true) :
    (∀ m < searchLoop f i j, f m = false) ∧
      ∀ m, searchLoop f i j ≤ m → m < n → f m = true := by
  fun_induction searchLoop f i j with
  | case1 i j more found induction =>
      exact induction (by omega) (by omega) low fun m least most => rising _ m least most found
  | case2 i j more passed induction =>
      refine induction inside (by omega) (fun m less => ?_) high
      cases value : f m with
      | false => rfl
      | true => exact absurd (rising m _ (by omega) (by omega) value) passed
  | case3 i j done =>
      exact ⟨low, fun m least most => high m (by omega) most⟩

/-- The place that `sort.Search` finds parts what fails the test from what passes it. -/
theorem search_spec {f : ℕ → Bool} {n : ℕ}
    (rising : ∀ a b, a ≤ b → b < n → f a = true → f b = true) :
    (∀ m < search n f, f m = false) ∧ ∀ m, search n f ≤ m → m < n → f m = true :=
  search_loop_spec (Nat.le_refl n) (Nat.zero_le n) rising
    (fun m less => absurd less (Nat.not_lt_zero m)) fun m least most => absurd least (by omega)

def key (target : Bytes 32) (n : Node) : ℕ := distance target.1 n.sha.1

theorem push_smallest {target : Bytes 32} {k : ℕ} {given entries : List Node}
    (smallest : Smallest (key target) k given entries) (n : Node) :
    Smallest (key target) k (n :: given) (push target k entries n) := by
  have farther (m : Node) :
      decide (0 < distcmp target.1 m.sha.1 n.sha.1) = true ↔ key target n < key target m := by
    rw [decide_eq_true_eq]
    exact distcmp_pos_iff (m.sha.2.trans target.2.symm) (n.sha.2.trans target.2.symm)
  have sorted := List.pairwise_iff_getElem.mp smallest.sorted
  have read (i : ℕ) (inside : i < entries.length) : entries.getD i n = entries[i] := by
    rw [List.getD_eq_getElem?_getD, List.getElem?_eq_getElem inside, Option.getD_some]
  obtain ⟨low, high⟩ := search_spec (n := entries.length)
    (f := fun i => 0 < distcmp target.1 (entries.getD i n).sha.1 n.sha.1)
    fun a b less inside passed => by
      rw [farther] at passed ⊢
      rcases Nat.eq_or_lt_of_le less with rfl | less
      · exact passed
      · rw [read a (by omega)] at passed
        rw [read b inside]
        exact Nat.lt_of_lt_of_le passed (sorted a b (by omega) inside less)
  refine smallest_insert smallest (search_le _ _) (fun e member => ?_) (fun e member => ?_)
  · obtain ⟨i, inside, rfl⟩ := List.getElem_of_mem member
    rw [List.length_take] at inside
    have passed := low i (by omega)
    rw [List.getElem_take]
    rw [← read i (by omega)]
    by_contra more
    have found := (farther _).mpr (Nat.lt_of_not_le more)
    rw [found] at passed
    cases passed
  · obtain ⟨i, inside, rfl⟩ := List.getElem_of_mem member
    rw [List.length_drop] at inside
    rw [List.getElem_drop, ← read _ (by omega)]
    exact Nat.le_of_lt ((farther _).mp (high _ (Nat.le_add_right _ i) (by omega)))

theorem fold_push_smallest {target : Bytes 32} {k : ℕ} (nodes : List Node)
    {given entries : List Node} (smallest : Smallest (key target) k given entries) :
    Smallest (key target) k (given ++ nodes) (nodes.foldl (push target k) entries) := by
  induction nodes generalizing given entries with
  | nil =>
      rw [List.append_nil]
      exact smallest
  | cons n rest induction =>
      exact smallest_perm (induction (push_smallest smallest n)) List.perm_middle.symm

theorem closest_smallest (tab : State) (target : Bytes 32) (k : ℕ) :
    Smallest (key target) k tab.entries (tab.closest target k) := by
  have folded := fold_push_smallest tab.entries (smallest_nil (key target) k)
  rwa [List.nil_append] at folded

end Distances

/-! ## Questions -/

section Questions

variable {home : NodeID} {replies : ℕ} {s : Lookup}

/-- No node is asked twice, nor the own one, and every question is answered or pending. -/
structure Orderly (home : NodeID) (replies : ℕ) (s : Lookup) : Prop where
  once : s.asked.Nodup
  own : home ∈ s.asked
  apart : home ∉ s.pending
  few : s.pending.length ≤ alpha
  waiting : ∀ id ∈ s.pending, id ∈ s.asked
  count : replies + s.pending.length + 1 = s.asked.length

theorem ask_cases (s : Lookup) (n : Node) :
    (s.ask n = s ∧ (alpha ≤ s.pending.length ∨ n.id ∈ s.asked)) ∨
      s.pending.length < alpha ∧ n.id ∉ s.asked ∧
        s.ask n = { s with asked := n.id :: s.asked, pending := n.id :: s.pending } := by
  unfold Lookup.ask
  split_ifs with free
  · exact .inr ⟨free.1, free.2, rfl⟩
  · refine .inl ⟨rfl, ?_⟩
    by_cases full : s.pending.length < alpha
    · exact .inr (by_contra fun new => free ⟨full, new⟩)
    · exact .inl (Nat.not_lt.mp full)

theorem orderly_ask (orderly : Orderly home replies s) (n : Node) :
    Orderly home replies (s.ask n) := by
  rcases ask_cases s n with ⟨same, _⟩ | ⟨room, new, asked⟩
  · rw [same]
    exact orderly
  · rw [asked]
    refine ⟨List.nodup_cons.mpr ⟨new, orderly.once⟩, .tail _ orderly.own, fun member => ?_, room, ?_,
      ?_⟩
    · rcases List.mem_cons.mp member with rfl | old
      · exact new orderly.own
      · exact orderly.apart old
    · intro id member
      rcases List.mem_cons.mp member with rfl | old
      · exact .head _
      · exact .tail _ (orderly.waiting id old)
    · have count := orderly.count
      simp only [List.length_cons]
      omega

theorem among_more {id : NodeID} {n : Node} {rest : List Node} (later : ∃ m ∈ rest, m.id = id) :
    ∃ m ∈ n :: rest, m.id = id := by
  obtain ⟨m, member, named⟩ := later
  exact ⟨m, .tail _ member, named⟩

/-- The loop over some nodes asks all of them, unless the limit is reached. -/
theorem ask_all (nodes : List Node) (orderly : Orderly home replies s) :
    Orderly home replies (nodes.foldl Lookup.ask s) ∧
      (nodes.foldl Lookup.ask s).result = s.result ∧ (nodes.foldl Lookup.ask s).seen = s.seen ∧
      s.asked ⊆ (nodes.foldl Lookup.ask s).asked ∧
      s.pending.length ≤ (nodes.foldl Lookup.ask s).pending.length ∧
      (∀ id ∈ (nodes.foldl Lookup.ask s).asked, id ∈ s.asked ∨ ∃ n ∈ nodes, n.id = id) ∧
      ((nodes.foldl Lookup.ask s).pending.length = alpha ∨
        ∀ n ∈ nodes, n.id ∈ (nodes.foldl Lookup.ask s).asked) := by
  induction nodes generalizing s with
  | nil =>
      exact ⟨orderly, rfl, rfl, List.Subset.refl _, Nat.le_refl _, fun _ member => .inl member,
        .inr (List.forall_mem_nil _)⟩
  | cons n rest induction =>
      obtain ⟨orderly', result, seen, more, grown, origin, busy⟩ :=
        induction (orderly_ask orderly n)
      rw [List.foldl_cons]
      rcases ask_cases s n with ⟨same, full | old⟩ | ⟨room, new, asked⟩
      · rw [same] at orderly' result seen more grown origin busy ⊢
        have limit := orderly'.few
        exact ⟨orderly', result, seen, more, grown,
          fun id member => (origin id member).imp_right among_more, .inl (by omega)⟩
      · rw [same] at orderly' result seen more grown origin busy ⊢
        exact ⟨orderly', result, seen, more, grown,
          fun id member => (origin id member).imp_right among_more,
          busy.imp_right fun all => List.forall_mem_cons.mpr ⟨more old, all⟩⟩
      · rw [asked] at orderly' result seen more grown origin busy ⊢
        refine ⟨orderly', result, seen, fun id member => more (.tail _ member), ?_, ?_,
          busy.imp_right fun all => List.forall_mem_cons.mpr ⟨more (.head _), all⟩⟩
        · exact Nat.le_trans (Nat.le_succ _) grown
        · intro id member
          rcases origin id member with old | ⟨m, later, named⟩
          · rcases List.mem_cons.mp old with rfl | old
            · exact .inr ⟨n, .head _, rfl⟩
            · exact .inl old
          · exact .inr ⟨m, .tail _ later, named⟩

end Questions

/-! ## Results -/

section Results

variable {tab : State} {target : Bytes 32} {events : List Reply} {s : Lookup}

def fresh (seen : List NodeID) : List Node → List Node
  | [] => []
  | n :: rest => if n.id ∈ seen then fresh seen rest else n :: fresh (n.id :: seen) rest

theorem fresh_congr (nodes : List Node) {seen other : List NodeID}
    (same : ∀ id, id ∈ seen ↔ id ∈ other) : fresh seen nodes = fresh other nodes := by
  induction nodes generalizing seen other with
  | nil => rfl
  | cons n rest induction =>
      have next : fresh (n.id :: seen) rest = fresh (n.id :: other) rest :=
        induction fun id => by rw [List.mem_cons, List.mem_cons, same id]
      simp only [fresh, same n.id, induction same, next]

theorem fresh_append (seen : List NodeID) (nodes more : List Node) :
    fresh seen (nodes ++ more) =
      fresh seen nodes ++ fresh (nodes.map Node.id ++ seen) more := by
  induction nodes generalizing seen with
  | nil => rfl
  | cons n rest induction =>
      rw [List.cons_append, fresh, fresh]
      split_ifs with old
      · rw [induction, fresh_congr more fun id => ?_]
        rw [List.map_cons, List.cons_append, List.mem_cons]
        constructor
        · exact .inr
        · rintro (rfl | member)
          · exact List.mem_append_right _ old
          · exact member
      · rw [induction, List.cons_append, fresh_congr more fun id => ?_]
        rw [List.map_cons, List.cons_append, List.mem_append, List.mem_cons, List.mem_cons,
          List.mem_append]
        tauto

theorem fresh_spec (seen : List NodeID) (nodes : List Node) :
    ((fresh seen nodes).map Node.id).Nodup ∧ ∀ n ∈ fresh seen nodes, n ∈ nodes ∧ n.id ∉ seen := by
  induction nodes generalizing seen with
  | nil => exact ⟨List.nodup_nil, List.forall_mem_nil _⟩
  | cons n rest induction =>
      rw [fresh]
      split_ifs with old
      · obtain ⟨distinct, new⟩ := induction seen
        exact ⟨distinct, fun m member => ⟨.tail _ (new m member).1, (new m member).2⟩⟩
      · obtain ⟨distinct, new⟩ := induction (n.id :: seen)
        refine ⟨?_, List.forall_mem_cons.mpr ⟨⟨.head _, old⟩, fun m member => ?_⟩⟩
        · rw [List.map_cons, List.nodup_cons]
          refine ⟨fun member => ?_, distinct⟩
          obtain ⟨m, later, same⟩ := List.mem_map.mp member
          exact (new m later).2 (same ▸ .head _)
        · exact ⟨.tail _ (new m member).1, fun before => (new m member).2 (.tail _ before)⟩

theorem receive_all (nodes : List Node) {given : List Node}
    (smallest : Smallest (key target) bucketSize given s.result) :
    Smallest (key target) bucketSize (given ++ fresh s.seen nodes)
        (nodes.foldl (Lookup.receive target) s).result ∧
      (∀ id, id ∈ (nodes.foldl (Lookup.receive target) s).seen ↔
        id ∈ nodes.map Node.id ∨ id ∈ s.seen) ∧
      (nodes.foldl (Lookup.receive target) s).asked = s.asked ∧
      (nodes.foldl (Lookup.receive target) s).pending = s.pending := by
  induction nodes generalizing s given with
  | nil =>
      rw [fresh, List.append_nil]
      exact ⟨smallest, fun id => by simp, rfl, rfl⟩
  | cons n rest induction =>
      rw [List.foldl_cons, fresh]
      by_cases old : n.id ∈ s.seen
      · rw [if_pos old, Lookup.receive, if_pos old]
        obtain ⟨result, seen, asked, pending⟩ := induction smallest
        refine ⟨result, fun id => ?_, asked, pending⟩
        rw [seen, List.map_cons, List.mem_cons]
        constructor
        · exact fun member => member.imp_left .inr
        · rintro ((rfl | member) | member)
          · exact .inr old
          · exact .inl member
          · exact .inr member
      · rw [if_neg old, Lookup.receive, if_neg old]
        have pushed := smallest_perm (push_smallest smallest n)
          (List.perm_append_singleton n given).symm
        obtain ⟨result, seen, asked, pending⟩ := induction
          (s := { s with seen := n.id :: s.seen, result := push target bucketSize s.result n }) pushed
        rw [List.append_assoc, List.singleton_append] at result
        refine ⟨result, fun id => ?_, asked, pending⟩
        rw [seen, List.map_cons, List.mem_cons, List.mem_cons]
        tauto

def reported (events : List Reply) : List Node := events.flatMap Reply.nodes

def heard (tab : State) (events : List Reply) : List Node := tab.entries ++ fresh [] (reported events)

structure Searching (tab : State) (target : Bytes 32) (events : List Reply) (s : Lookup) : Prop where
  orderly : Orderly tab.self.id events.length s
  origin : ∀ id ∈ s.asked, id = tab.self.id ∨ ∃ n ∈ heard tab events, n.id = id
  seen : ∀ id, id ∈ s.seen ↔ id ∈ (reported events).map Node.id
  smallest : Smallest (key target) bucketSize (heard tab events) s.result
  busy : s.pending.length = alpha ∨ ∀ n ∈ s.result, n.id ∈ s.asked

theorem ask_searching (orderly : Orderly tab.self.id events.length s)
    (origin : ∀ id ∈ s.asked, id = tab.self.id ∨ ∃ n ∈ heard tab events, n.id = id)
    (seen : ∀ id, id ∈ s.seen ↔ id ∈ (reported events).map Node.id)
    (smallest : Smallest (key target) bucketSize (heard tab events) s.result) :
    Searching tab target events s.askClosest := by
  obtain ⟨orderly', result, seen', _, _, origin', busy⟩ := ask_all s.result orderly
  unfold Lookup.askClosest
  refine ⟨orderly', fun id member => ?_, ?_, ?_, ?_⟩
  · rcases origin' id member with old | ⟨n, new, named⟩
    · exact origin id old
    · exact .inr ⟨n, smallest_mem smallest new, named⟩
  · rw [seen']
    exact seen
  · rw [result]
    exact smallest
  · rw [result]
    exact busy

theorem searching_start (tab : State) (target : Bytes 32) :
    Searching tab target [] (startLookup tab target) := by
  refine ask_searching ⟨List.nodup_singleton _, .head _, List.not_mem_nil, Nat.zero_le _,
    List.forall_mem_nil _, rfl⟩
    (fun id member => .inl (List.mem_singleton.mp member)) (fun id => Iff.rfl) ?_
  have closest := closest_smallest tab target bucketSize
  rwa [heard, reported, List.flatMap_nil, fresh, List.append_nil]

theorem searching_step {reply : Reply} {after : Lookup} (searching : Searching tab target events s)
    (stepped : lookupStep target s reply = some after) :
    Searching tab target (events ++ [reply]) after := by
  unfold lookupStep at stepped
  split_ifs at stepped with waited
  obtain rfl := Option.some.inj stepped
  obtain ⟨result, seen, asked, pending⟩ := receive_all reply.nodes searching.smallest
  have all : reported (events ++ [reply]) = reported events ++ reply.nodes := by
    rw [reported, List.flatMap_append, List.flatMap_singleton]
    rfl
  have grown : heard tab (events ++ [reply]) = heard tab events ++ fresh s.seen reply.nodes := by
    rw [heard, all, fresh_append, ← List.append_assoc, List.append_nil, ← heard,
      fresh_congr reply.nodes searching.seen]
  have orderly := searching.orderly
  have less := List.length_erase_of_mem waited
  have some := List.length_pos_of_mem waited
  refine ask_searching ⟨?_, ?_, ?_, ?_, ?_, ?_⟩ ?_ ?_ ?_
  · rw [Lookup.take, asked]
    exact orderly.once
  · rw [Lookup.take, asked]
    exact orderly.own
  · rw [Lookup.take, pending]
    exact fun member => orderly.apart (List.mem_of_mem_erase member)
  · rw [Lookup.take, pending, less]
    have few := orderly.few
    omega
  · rw [Lookup.take, asked, pending]
    exact fun id member => orderly.waiting id (List.mem_of_mem_erase member)
  · have count := orderly.count
    rw [Lookup.take, asked, pending, less, List.length_append, List.length_singleton]
    omega
  · rw [Lookup.take, asked, grown]
    intro id member
    rcases searching.origin id member with own | ⟨n, known, named⟩
    · exact .inl own
    · exact .inr ⟨n, List.mem_append_left _ known, named⟩
  · rw [Lookup.take, all, List.map_append]
    intro id
    rw [seen, searching.seen, List.mem_append, or_comm]
  · rw [Lookup.take, grown]
    exact result

theorem searching_run (run : LookupRun tab target events s) : Searching tab target events s := by
  induction run with
  | start => exact searching_start tab target
  | next reply prior guard stepped induction => exact searching_step induction stepped

/-- A lookup asks no node twice and never the own one, has at most three questions on their way,
and asks only nodes it has heard of. So it is over after at most one reply for each of them. -/
theorem lookup_asks_once (run : LookupRun tab target events s) :
    s.asked.Nodup ∧ s.pending.length ≤ 3 ∧ tab.self.id ∉ s.pending ∧
      (∀ id ∈ s.asked, id = tab.self.id ∨ ∃ n ∈ heard tab events, n.id = id) ∧
      events.length + s.pending.length ≤ ((heard tab events).map Node.id).dedup.length := by
  have searching := searching_run run
  have orderly := searching.orderly
  refine ⟨orderly.once, orderly.few, orderly.apart, searching.origin, ?_⟩
  have others : (s.asked.erase tab.self.id).length ≤ ((heard tab events).map Node.id).dedup.length := by
    refine (List.subperm_of_subset (orderly.once.erase _) fun id member => ?_).length_le
    obtain ⟨other, old⟩ := (List.Nodup.mem_erase_iff orderly.once).mp member
    obtain ⟨n, known, rfl⟩ := (searching.origin id old).resolve_left other
    exact List.mem_dedup.mpr (List.mem_map_of_mem known)
  have less := List.length_erase_of_mem orderly.own
  have count := orderly.count
  omega

def sampleNode (byte : UInt8) : Node :=
  ⟨some [10, 0, 0, byte], 30303, 30303, filled 64 (List.replicate 64 byte),
    filled 32 (List.replicate 32 byte)⟩

def sampleTarget : Bytes 32 := filled 32 []

def sampleTable : State := (newTable (sampleNode 0)).stuffNode (sampleNode 1)

/-- The node reports itself and another one, which does not reply. -/
def sampleReplies : List Reply :=
  [⟨(sampleNode 1).id, [sampleNode 2, sampleNode 1]⟩, ⟨(sampleNode 2).id, []⟩]

theorem sample_lookup :
    ∃ s, LookupRun sampleTable sampleTarget sampleReplies s ∧ s.pending = [] ∧
      s.result = [sampleNode 1, sampleNode 1, sampleNode 2] := by
  have passed : (replay (lookupStep sampleTarget) (fun _ _ => true)
      (startLookup sampleTable sampleTarget) sampleReplies).any
      (fun s => decide (s.pending = [] ∧ s.result = [sampleNode 1, sampleNode 1, sampleNode 2])) =
        true := by
    decide +kernel
  obtain ⟨s, run, facts⟩ := run_reaching _ _ (fun _ _ _ => trivial) passed
  exact ⟨s, run, of_decide_eq_true facts⟩

theorem sampled_asks_once :
    ∃ s, LookupRun sampleTable sampleTarget sampleReplies s ∧ s.result.length = 3 ∧
      s.asked.Nodup := by
  obtain ⟨s, run, _, result⟩ := sample_lookup
  exact ⟨s, run, by rw [result]; rfl, (lookup_asks_once run).1⟩

/-- When nothing is pending, all nodes of the result were asked, and they are the sixteen
closest of the nodes that the table held at first and those that were reported, in the order of
their distances. The table's nodes are not remembered as seen: one that is reported as well is
counted twice. -/
theorem lookup_finds_closest (run : LookupRun tab target events s) (finished : s.pending = []) :
    (∀ n ∈ s.result, n.id ∈ s.asked) ∧
      Smallest (key target) bucketSize (heard tab events) s.result ∧
      ∀ id, (s.result.map Node.id).count id ≤ (tab.entries.map Node.id).count id + 1 := by
  have searching := searching_run run
  refine ⟨?_, searching.smallest, fun id => ?_⟩
  · refine searching.busy.resolve_left ?_
    rw [finished]
    decide
  · obtain ⟨rest, perm, _⟩ := searching.smallest.split
    have counts := (perm.map Node.id).count_eq id
    have single := List.nodup_iff_count_le_one.mp (fresh_spec [] (reported events)).1 id
    rw [heard, List.map_append, List.map_append, List.count_append, List.count_append] at counts
    omega

theorem sampled_finds_closest :
    ∃ s, LookupRun sampleTable sampleTarget sampleReplies s ∧ s.result.length = 3 ∧
      ∀ n ∈ s.result, n.id ∈ s.asked := by
  obtain ⟨s, run, finished, result⟩ := sample_lookup
  exact ⟨s, run, by rw [result]; rfl, (lookup_finds_closest run finished).1⟩

theorem resolve_named {targetID : NodeID} {found : List Node} {n : Node}
    (resolved : resolve tab targetID found = some n) :
    n.id = targetID ∧ (n ∈ tab.entries ∨ n ∈ found) := by
  have searched (hit : (found.find? fun n => n.id = targetID) = some n) :
      n.id = targetID ∧ (n ∈ tab.entries ∨ n ∈ found) := by
    have named := List.find?_some hit
    exact ⟨of_decide_eq_true named, .inr (List.mem_of_find?_eq_some hit)⟩
  rw [resolve] at resolved
  split at resolved
  · rename_i m rest first
    split_ifs at resolved with named
    · obtain rfl := Option.some.inj resolved
      have nearest := closest_smallest tab (keccak256Hash [targetID.1]) 1
      rw [first] at nearest
      exact ⟨named, .inl (smallest_mem nearest (.head _))⟩
    · exact searched resolved
  · exact searched resolved

end Results

/-! ## Random nodes -/

section RandomNodes

theorem take_bucket {buckets : List (List Node)} {j : ℕ} (inside : j < buckets.length)
    (nonempty : ∀ b ∈ buckets, b ≠ []) {n : Node} {rest : List Node}
    (bucket : buckets[j] = n :: rest) :
    (∀ b ∈ if rest = [] then buckets.eraseIdx j else buckets.set j rest, b ≠ []) ∧
      buckets.flatten.Perm
        (n :: (if rest = [] then buckets.eraseIdx j else buckets.set j rest).flatten) := by
  have whole : buckets = buckets.take j ++ (n :: rest) :: buckets.drop (j + 1) := by
    rw [← bucket, ← List.drop_eq_getElem_cons inside, List.take_append_drop]
  have flat : buckets.flatten =
      (buckets.take j).flatten ++ n :: (rest ++ (buckets.drop (j + 1)).flatten) := by
    conv_lhs => rw [whole]
    rw [List.flatten_append, List.flatten_cons, List.cons_append]
  rw [flat]
  split_ifs with last
  · refine ⟨fun b member => nonempty b (List.mem_of_mem_eraseIdx member), ?_⟩
    rw [List.eraseIdx_eq_take_drop_succ, List.flatten_append, last]
    exact List.perm_middle
  · refine ⟨fun b member => ?_, ?_⟩
    · rcases List.mem_or_eq_of_mem_set member with old | rfl
      · exact nonempty b old
      · exact last
    · rw [List.set_eq_take_append_cons_drop, if_pos inside, List.flatten_append, List.flatten_cons]
      exact List.perm_middle

theorem flatten_length_pos {buckets : List (List Node)} (some : buckets ≠ [])
    (nonempty : ∀ b ∈ buckets, b ≠ []) : 0 < buckets.flatten.length := by
  obtain ⟨b, others, rfl⟩ := List.exists_cons_of_ne_nil some
  have first := List.length_pos_of_ne_nil (nonempty b (.head _))
  rw [List.flatten_cons, List.length_append]
  omega

/-- The loop takes nodes from the buckets until the slots are full or no node is left. -/
theorem fill_slots_spec (slots : ℕ) {buckets : List (List Node)} {j : ℕ} (inside : j < buckets.length)
    (nonempty : ∀ b ∈ buckets, b ≠ []) :
    ∃ written ended, fillSlots slots buckets j = some (written, ended) ∧
      written.length = min slots buckets.flatten.length ∧
      (∃ rest, buckets.flatten.Perm (written ++ rest)) ∧
      (ended = true ↔ buckets.flatten.length ≤ slots) := by
  induction slots generalizing buckets j with
  | zero =>
      have positive := flatten_length_pos (List.ne_nil_of_length_pos (by omega)) nonempty
      refine ⟨[], false, rfl, (Nat.zero_min _).symm, ⟨_, .refl _⟩, ?_⟩
      simp only [Bool.false_eq_true, false_iff]
      omega
  | succ slots induction =>
      obtain ⟨n, rest, bucket⟩ := List.exists_cons_of_ne_nil (nonempty _ (List.getElem_mem inside))
      obtain ⟨filled, perm⟩ := take_bucket inside nonempty bucket
      rw [fillSlots, List.getElem?_eq_getElem inside, bucket]
      dsimp only
      generalize (if rest = [] then buckets.eraseIdx j else buckets.set j rest) = others
        at filled perm ⊢
      have total := perm.length_eq
      rw [List.length_cons] at total
      by_cases none : others = []
      · rw [if_pos none]
        rw [none, List.flatten_nil] at perm total
        refine ⟨[n], true, rfl, ?_, ⟨[], perm⟩, ?_⟩
        · rw [List.length_singleton, total, List.length_nil]
          omega
        · rw [total, List.length_nil]
          simp
      · rw [if_neg none]
        obtain ⟨written, ended, run, length, ⟨left, split⟩, finished⟩ :=
          induction (Nat.mod_lt (j + 1) (List.length_pos_of_ne_nil none)) filled
        refine ⟨n :: written, ended, by rw [run]; rfl, ?_, ⟨left, perm.trans (split.cons n)⟩, ?_⟩
        · rw [List.length_cons, length]
          omega
        · rw [finished]
          omega

theorem shuffle_perm (draw : ℕ → ℕ) (i : ℕ) (buckets : List (List Node)) :
    (shuffle draw i buckets).Perm buckets := by
  induction i generalizing buckets with
  | zero => exact .refl _
  | succ i induction => exact (induction _).trans (List.swap_perm _ _ _)

/-- `ReadRandomNodes` never panics and writes no entry of the table twice. The number it returns
is the number of nodes written if the table has no more than the buffer holds, and one more than
the buffer holds otherwise; whoever reads no more places than the buffer has reads nodes that
were written. -/
theorem random_nodes_from_table (tab : State) (draw : ℕ → ℕ) (slots : ℕ) :
    ∃ written n, readRandomNodes tab draw slots = some (written, n) ∧
      (∃ rest, tab.entries.Perm (written ++ rest)) ∧
      written.length = min slots tab.entries.length ∧
      n = (if tab.entries.length ≤ slots then tab.entries.length else slots + 1) ∧
      ∀ wanted ≤ slots, min wanted n ≤ written.length := by
  rw [readRandomNodes]
  generalize eq : ((List.finRange nBuckets).map fun i => (tab.buckets i).1).filter
    (fun b => b ≠ []) = buckets
  have entries : tab.entries = buckets.flatten := by
    rw [← eq, List.flatten_filter_ne_nil, State.entries, List.flatMap_def]
  have nonempty : ∀ b ∈ buckets, b ≠ [] := fun b member => by
    rw [← eq] at member
    exact of_decide_eq_true (List.mem_filter.mp member).2
  by_cases none : buckets = []
  · rw [if_pos none, entries, none]
    exact ⟨[], 0, rfl, ⟨[], .nil⟩, (Nat.min_zero _).symm, rfl, fun _ _ => Nat.min_le_right _ _⟩
  rw [if_neg none]
  have shuffled := shuffle_perm draw (buckets.length - 1) buckets
  obtain ⟨written, ended, run, length, ⟨rest, split⟩, finished⟩ :=
    fill_slots_spec slots (shuffled.length_eq ▸ List.length_pos_of_ne_nil none)
      fun b member => nonempty b (shuffled.mem_iff.mp member)
  rw [shuffled.flatten.length_eq, ← entries] at length finished
  rw [run]
  have number : (if ended then written.length else slots + 1) =
      if tab.entries.length ≤ slots then tab.entries.length else slots + 1 := by
    rw [length]
    simp only [finished]
    split_ifs with all
    · exact Nat.min_eq_right all
    · rfl
  refine ⟨written, _, rfl, ⟨rest, entries ▸ shuffled.flatten.symm.trans split⟩, length, number,
    fun wanted few => ?_⟩
  dsimp only
  rw [number, length]
  split_ifs <;> omega

end RandomNodes

end PbftBlock.NodeLookup
