import Mathlib.Algebra.Order.BigOperators.Group.List
import Mathlib.Algebra.Order.Ring.Nat
import Mathlib.Data.List.Induction
import Mathlib.Data.List.Perm.Subperm
import Mathlib.Data.List.Sort
import Mathlib.Data.Prod.Lex
import PbftBlock.Library.FiniteMaps

/-!
# The protocols of a connection

`matchProtocols` of `p2p/peer.go` gives each protocol that both sides run a range of message
codes. Each side computes the ranges for itself, from its own protocols and the capabilities
that the other side has sent. Names are compared as Go compares strings; only that this is a
linear order matters here.
-/

namespace PbftBlock.SubProtocols

open PbftBlock.Library.FiniteMaps

set_option autoImplicit false

variable {Name : Type} [LinearOrder Name]

section Transcription

structure Cap (Name : Type) where
  name : Name
  version : ℕ
deriving DecidableEq

structure Protocol (Name : Type) where
  name : Name
  version : ℕ
  length : UInt64
deriving DecidableEq

def Protocol.cap (p : Protocol Name) : Cap Name := ⟨p.name, p.version⟩

structure ProtoRW (Name : Type) where
  proto : Protocol Name
  offset : UInt64
deriving DecidableEq

def baseProtocolLength : UInt64 := 17

def Cap.key (cap : Cap Name) : Name ×ₗ ℕ := toLex (cap.name, cap.version)

/-- `capsByNameAndVersion`. Capabilities that compare equal are equal, so all ways to sort
give the same. -/
def sortCaps (caps : List (Cap Name)) : List (Cap Name) :=
  caps.insertionSort fun a b => a.key ≤ b.key

def countMatchingProtocols (protocols : List (Protocol Name)) (caps : List (Cap Name)) : ℕ :=
  (caps.map fun cap => protocols.countP fun proto => proto.cap = cap).sum

/-- The body of the loop for a protocol that was found. An older version gives its range
back. -/
def assign (state : UInt64 × FiniteMap Name (ProtoRW Name)) (proto : Protocol Name) :
    UInt64 × FiniteMap Name (ProtoRW Name) :=
  let offset := match state.2.lookup proto.name with
    | some old => state.1 - old.proto.length
    | none => state.1
  (offset + proto.length, state.2.insert proto.name ⟨proto, offset⟩)

/-- One turn of the loop over the capabilities, with the first protocol that fits. -/
def matchCap (protocols : List (Protocol Name)) (state : UInt64 × FiniteMap Name (ProtoRW Name))
    (cap : Cap Name) : UInt64 × FiniteMap Name (ProtoRW Name) :=
  match protocols.find? fun proto => proto.cap = cap with
  | some proto => assign state proto
  | none => state

def matchProtocols (protocols : List (Protocol Name)) (caps : List (Cap Name)) :
    FiniteMap Name (ProtoRW Name) :=
  ((sortCaps caps).foldl (matchCap protocols) (baseProtocolLength, ∅)).2

/-- The protocols are ranged over in some order. -/
def getProto (running : List (ProtoRW Name)) (code : UInt64) : Option (ProtoRW Name) :=
  running.find? fun rw => rw.offset ≤ code && code < rw.offset + rw.proto.length

def ProtoRW.writeCode (rw : ProtoRW Name) (code : UInt64) : Option UInt64 :=
  if rw.proto.length ≤ code then none else some (code + rw.offset)

def ProtoRW.readCode (rw : ProtoRW Name) (code : UInt64) : UInt64 := code - rw.offset

inductive Handled (Name : Type) where
  | pong
  | disconnect
  | ignored
  | outOfRange
  | delivered (rw : ProtoRW Name) (code : UInt64)

def discMsg : UInt64 := 1
def pingMsg : UInt64 := 2

def handle (running : List (ProtoRW Name)) (code : UInt64) : Handled Name :=
  if code = pingMsg then .pong
  else if code = discMsg then .disconnect
  else if code < baseProtocolLength then .ignored
  else
    match getProto running code with
    | none => .outOfRange
    | some rw => .delivered rw (rw.readCode code)

end Transcription

/-! ## Ranges -/

section Ranges

variable {stop : UInt64} {chosen : List (ProtoRW Name)} {proto : Protocol Name}
  {result : FiniteMap Name (ProtoRW Name)}

/-- The ranges follow each other without a gap, the last one first, up to `stop`. -/
def Stacked (stop : UInt64) : List (ProtoRW Name) → Prop
  | [] => stop = baseProtocolLength
  | rw :: rest => stop.toNat = rw.offset.toNat + rw.proto.length.toNat ∧ Stacked rw.offset rest

def Named (chosen : List (ProtoRW Name)) : Prop :=
  chosen.Pairwise fun rw other => other.proto.name < rw.proto.name

/-- The state of the loop, with the entries in the order of their names. -/
structure Laid (stop : UInt64) (result : FiniteMap Name (ProtoRW Name))
    (chosen : List (ProtoRW Name)) : Prop where
  entries : ∀ name rw, result.lookup name = some rw ↔ rw ∈ chosen ∧ rw.proto.name = name
  stacked : Stacked stop chosen
  named : Named chosen

omit [LinearOrder Name] in
theorem stacked_stop (stacked : Stacked stop chosen) :
    stop.toNat = 17 + (chosen.map fun rw => rw.proto.length.toNat).sum := by
  induction chosen generalizing stop with
  | nil =>
      rw [stacked]
      rfl
  | cons rw rest induction =>
      have below := induction stacked.2
      rw [List.map_cons, List.sum_cons, stacked.1, below]
      omega

omit [LinearOrder Name] in
/-- All ranges lie between the codes of the base protocol and the end, and no two of them
meet. -/
theorem stacked_ranges (stacked : Stacked stop chosen) {rw : ProtoRW Name} (member : rw ∈ chosen) :
    17 ≤ rw.offset.toNat ∧ rw.offset.toNat + rw.proto.length.toNat ≤ stop.toNat := by
  induction chosen generalizing stop with
  | nil => cases member
  | cons first rest induction =>
      have start := stacked_stop stacked.2
      have split := stacked.1
      rcases List.mem_cons.mp member with rfl | inside
      · omega
      · have bounds := induction stacked.2 inside
        omega

omit [LinearOrder Name] in
theorem stacked_apart (stacked : Stacked stop chosen) {rw other : ProtoRW Name}
    (member : rw ∈ chosen) (member' : other ∈ chosen) {code : ℕ}
    (inside : rw.offset.toNat ≤ code ∧ code < rw.offset.toNat + rw.proto.length.toNat)
    (inside' : other.offset.toNat ≤ code ∧
      code < other.offset.toNat + other.proto.length.toNat) : rw = other := by
  induction chosen generalizing stop with
  | nil => cases member
  | cons first rest induction =>
      rcases List.mem_cons.mp member with rfl | early
      · rcases List.mem_cons.mp member' with rfl | early'
        · rfl
        · have bounds := stacked_ranges stacked.2 early'
          omega
      · rcases List.mem_cons.mp member' with rfl | early'
        · have bounds := stacked_ranges stacked.2 early
          omega
        · exact induction stacked.2 early early'

/-- The loop in terms of the stack: a newer version takes the place of the one before it. -/
def stack (chosen : List (ProtoRW Name)) (stop : UInt64) (proto : Protocol Name) :
    List (ProtoRW Name) :=
  match chosen with
  | [] => [⟨proto, stop⟩]
  | rw :: rest =>
      if rw.proto.name = proto.name then ⟨proto, rw.offset⟩ :: rest else ⟨proto, stop⟩ :: rw :: rest

theorem stack_protos {later : List (ProtoRW Name)} (stacked : stack chosen stop proto = later)
    {rw : ProtoRW Name} (member : rw ∈ later) : rw.proto = proto ∨ rw ∈ chosen := by
  subst stacked
  unfold stack at member
  cases chosen with
  | nil => exact .inl (by rw [List.mem_singleton.mp member])
  | cons first rest =>
      dsimp only at member
      split_ifs at member
      · rcases List.mem_cons.mp member with rfl | old
        · exact .inl rfl
        · exact .inr (.tail _ old)
      · rcases List.mem_cons.mp member with rfl | old
        · exact .inl rfl
        · exact .inr old

theorem stack_named (stop : UInt64) (named : Named chosen)
    (later : ∀ rw ∈ chosen, rw.proto.name ≤ proto.name) :
    Named (stack chosen stop proto) := by
  unfold stack
  cases chosen with
  | nil => exact List.pairwise_singleton _ _
  | cons first rest =>
      obtain ⟨before, sorted⟩ := List.pairwise_cons.mp named
      dsimp only
      split_ifs with same
      · refine List.pairwise_cons.mpr ⟨fun other early => ?_, sorted⟩
        have less := before other early
        rwa [same] at less
      · have less := lt_of_le_of_ne (later first (.head _)) same
        refine List.pairwise_cons.mpr ⟨fun other member => ?_, named⟩
        rcases List.mem_cons.mp member with rfl | early
        · exact less
        · exact lt_trans (before other early) less

theorem insert_entries {others : List (ProtoRW Name)} (rw : ProtoRW Name)
    (entries : ∀ name entry, name ≠ rw.proto.name →
      (result.lookup name = some entry ↔ entry ∈ others ∧ entry.proto.name = name))
    (apart : ∀ other ∈ others, other.proto.name ≠ rw.proto.name) (name : Name)
    (entry : ProtoRW Name) :
    (result.insert rw.proto.name rw).lookup name = some entry ↔
      entry ∈ rw :: others ∧ entry.proto.name = name := by
  rw [lookup_insert_eq]
  by_cases same : name = rw.proto.name
  · rw [if_pos same, Option.some.injEq]
    constructor
    · rintro rfl
      exact ⟨.head _, same.symm⟩
    · rintro ⟨member, called⟩
      rcases List.mem_cons.mp member with rfl | old
      · rfl
      · exact absurd (called.trans same) (apart entry old)
  · rw [if_neg same, entries name entry same]
    constructor
    · rintro ⟨member, called⟩
      exact ⟨.tail _ member, called⟩
    · rintro ⟨member, called⟩
      rcases List.mem_cons.mp member with rfl | old
      · exact absurd called.symm same
      · exact ⟨old, called⟩

/-- A name that has no range yet gets one at the end. -/
theorem assign_first (laid : Laid stop result chosen)
    (later : ∀ rw ∈ chosen, rw.proto.name ≤ proto.name)
    (fits : ((stack chosen stop proto).map fun rw => rw.proto.length.toNat).sum + 17 < 2 ^ 64)
    (found : result.lookup proto.name = none) :
    Laid (assign (stop, result) proto).1 (assign (stop, result) proto).2
      (stack chosen stop proto) := by
  have stopped := stacked_stop laid.stacked
  have named := stack_named stop laid.named later
  have fresh : ∀ rw ∈ chosen, rw.proto.name ≠ proto.name := by
    intro rw member same
    rw [(laid.entries proto.name rw).mpr ⟨member, same⟩] at found
    cases found
  have pushed : stack chosen stop proto = ⟨proto, stop⟩ :: chosen := by
    cases chosen with
    | nil => rfl
    | cons rw rest => exact if_neg (fresh rw (.head _))
  simp only [assign, found]
  rw [pushed] at named fits ⊢
  refine ⟨insert_entries ⟨proto, stop⟩ (fun name entry _ => laid.entries name entry) fresh,
    ⟨?_, laid.stacked⟩, named⟩
  rw [List.map_cons, List.sum_cons] at fits
  dsimp only at fits ⊢
  rw [UInt64.toNat_add]
  omega

/-- An older version is the last entry, as names grow, and its range is given back. -/
theorem assign_newer (laid : Laid stop result chosen)
    (later : ∀ rw ∈ chosen, rw.proto.name ≤ proto.name)
    (fits : ((stack chosen stop proto).map fun rw => rw.proto.length.toNat).sum + 17 < 2 ^ 64)
    {old : ProtoRW Name} (found : result.lookup proto.name = some old) :
    Laid (assign (stop, result) proto).1 (assign (stop, result) proto).2
      (stack chosen stop proto) := by
  have named := stack_named stop laid.named later
  obtain ⟨member, called⟩ := (laid.entries proto.name old).mp found
  cases chosen with
  | nil => cases member
  | cons first rest =>
      obtain ⟨before, _⟩ := List.pairwise_cons.mp laid.named
      have last : first = old := by
        rcases List.mem_cons.mp member with same | early
        · exact same.symm
        · have less := before old early
          rw [called] at less
          exact absurd (later first (.head _)) (not_le.mpr less)
      subst last
      have start := stacked_stop laid.stacked.2
      have split := laid.stacked.1
      have back : stop - first.proto.length = first.offset := by
        apply UInt64.toNat.inj
        rw [UInt64.toNat_sub_of_le _ _ (UInt64.le_iff_toNat_le.mpr (by omega))]
        omega
      have replaced : stack (first :: rest) stop proto = ⟨proto, first.offset⟩ :: rest :=
        if_pos called
      simp only [assign, found, back]
      rw [replaced] at named fits ⊢
      refine ⟨insert_entries ⟨proto, first.offset⟩ (fun name entry apart => ?_)
        (fun other early => ?_), ⟨?_, laid.stacked.2⟩, named⟩
      · rw [laid.entries]
        constructor
        · rintro ⟨member, other⟩
          rcases List.mem_cons.mp member with rfl | early
          · exact absurd (other.symm.trans called) apart
          · exact ⟨early, other⟩
        · rintro ⟨early, other⟩
          exact ⟨.tail _ early, other⟩
      · have less := before other early
        rw [called] at less
        exact ne_of_lt less
      · rw [List.map_cons, List.sum_cons] at fits
        dsimp only at fits ⊢
        rw [UInt64.toNat_add]
        omega

theorem assign_laid (laid : Laid stop result chosen)
    (later : ∀ rw ∈ chosen, rw.proto.name ≤ proto.name)
    (fits : ((stack chosen stop proto).map fun rw => rw.proto.length.toNat).sum + 17 < 2 ^ 64) :
    Laid (assign (stop, result) proto).1 (assign (stop, result) proto).2
      (stack chosen stop proto) := by
  cases found : result.lookup proto.name with
  | none => exact assign_first laid later fits found
  | some old => exact assign_newer laid later fits found

theorem named_sum_le (named : Named chosen) {protocols : List (Protocol Name)}
    (inside : ∀ rw ∈ chosen, rw.proto ∈ protocols) :
    (chosen.map fun rw => rw.proto.length.toNat).sum ≤
      (protocols.map fun proto => proto.length.toNat).sum := by
  have distinct : (chosen.map fun rw => rw.proto).Nodup := by
    refine List.Pairwise.map _ (fun rw other less same => ?_) named
    rw [same] at less
    exact lt_irrefl _ less
  have subset : ∀ proto ∈ chosen.map fun rw => rw.proto, proto ∈ protocols := by
    intro proto member
    obtain ⟨rw, early, rfl⟩ := List.mem_map.mp member
    exact inside rw early
  obtain ⟨same, perm, sublist⟩ := List.subperm_of_subset distinct subset
  have sums := (perm.map fun proto => proto.length.toNat).sum_eq
  rw [List.map_map] at sums
  have less := (sublist.map fun proto : Protocol Name => proto.length.toNat).sum_le_sum
    fun _ _ => Nat.zero_le _
  calc (chosen.map fun rw => rw.proto.length.toNat).sum
      = (same.map fun proto => proto.length.toNat).sum := sums.symm
    _ ≤ (protocols.map fun proto => proto.length.toNat).sum := less

end Ranges

/-! ## The loop -/

section Loop

variable {protocols : List (Protocol Name)} {caps : List (Cap Name)}

def met (protocols : List (Protocol Name)) (caps : List (Cap Name)) : List (Protocol Name) :=
  (sortCaps caps).filterMap fun cap => protocols.find? fun proto => proto.cap = cap

theorem match_protocols_met (protocols : List (Protocol Name)) (caps : List (Cap Name)) :
    matchProtocols protocols caps =
      ((met protocols caps).foldl assign (baseProtocolLength, ∅)).2 := by
  have turns : ∀ (list : List (Cap Name)) (state : UInt64 × FiniteMap Name (ProtoRW Name)),
      list.foldl (matchCap protocols) state =
        (list.filterMap fun cap => protocols.find? fun proto => proto.cap = cap).foldl assign
          state := by
    intro list
    induction list with
    | nil => exact fun _ => rfl
    | cons cap rest induction =>
        intro state
        rw [List.foldl_cons, induction, matchCap, List.filterMap_cons]
        cases protocols.find? fun proto => proto.cap = cap with
        | none => rfl
        | some proto => rw [List.foldl_cons]
  rw [matchProtocols, turns, met]

theorem mem_met {proto : Protocol Name} (member : proto ∈ met protocols caps) :
    proto ∈ protocols ∧ proto.cap ∈ caps := by
  obtain ⟨cap, inside, found⟩ := List.mem_filterMap.mp member
  have same : proto.cap = cap := by simpa using List.find?_some found
  rw [same]
  exact ⟨List.mem_of_find?_eq_some found, (List.mem_insertionSort _).mp inside⟩

theorem met_of_common {proto : Protocol Name} (own : proto ∈ protocols) (sent : proto.cap ∈ caps) :
    ∃ other ∈ met protocols caps, other.cap = proto.cap := by
  cases found : protocols.find? fun other => other.cap = proto.cap with
  | none => exact absurd (decide_eq_true rfl) (List.find?_eq_none.mp found proto own)
  | some other =>
      exact ⟨other, List.mem_filterMap.mpr ⟨_, (List.mem_insertionSort _).mpr sent, found⟩,
        by simpa using List.find?_some found⟩

theorem caps_sorted (caps : List (Cap Name)) :
    (sortCaps caps).Pairwise fun a b => a.key ≤ b.key := by
  have : Std.Total fun a b : Cap Name => a.key ≤ b.key := ⟨fun a b => le_total a.key b.key⟩
  have : IsTrans (Cap Name) fun a b => a.key ≤ b.key := ⟨fun _ _ _ => le_trans⟩
  exact List.pairwise_insertionSort _ caps

theorem met_sorted (protocols : List (Protocol Name)) (caps : List (Cap Name)) :
    (met protocols caps).Pairwise fun p q => p.cap.key ≤ q.cap.key := by
  refine List.Pairwise.filterMap _ (fun a b less p foundP q foundQ => ?_) (caps_sorted caps)
  have atP : p.cap = a := by simpa using List.find?_some foundP
  have atQ : q.cap = b := by simpa using List.find?_some foundQ
  rw [atP, atQ]
  exact less

theorem key_le_iff (a b : Cap Name) :
    a.key ≤ b.key ↔ a.name < b.name ∨ a.name = b.name ∧ a.version ≤ b.version :=
  Prod.Lex.toLex_le_toLex

/-- What `found` is for a name: the newest version among the protocols, if there is one. -/
structure NewestOf (ps : List (Protocol Name)) (name : Name) (found : Option (Protocol Name)) :
    Prop where
  among : ∀ proto, found = some proto → proto ∈ ps ∧ proto.name = name
  newest : ∀ proto ∈ ps, proto.name = name →
    ∃ kept, found = some kept ∧ proto.version ≤ kept.version

theorem assign_lookup (state : UInt64 × FiniteMap Name (ProtoRW Name)) (proto : Protocol Name)
    (name : Name) :
    ((assign state proto).2.lookup name).map ProtoRW.proto =
      if name = proto.name then some proto else (state.2.lookup name).map ProtoRW.proto := by
  unfold assign
  dsimp only
  rw [lookup_insert_eq]
  split_ifs <;> rfl

/-- The last protocol of a name that the loop meets stays, and it has the highest version, as they
are sorted. -/
theorem fold_newest {ps : List (Protocol Name)}
    (sorted : ps.Pairwise fun p q => p.cap.key ≤ q.cap.key) (name : Name) :
    NewestOf ps name
      (((ps.foldl assign (baseProtocolLength, ∅)).2.lookup name).map ProtoRW.proto) := by
  induction ps using List.reverseRecOn with
  | nil => exact ⟨fun proto found => by simp at found, List.forall_mem_nil _⟩
  | append_singleton ps proto induction =>
      obtain ⟨early, _, before⟩ := List.pairwise_append.mp sorted
      obtain ⟨among, newest⟩ := induction early
      rw [List.foldl_append, List.foldl_cons, List.foldl_nil, assign_lookup]
      by_cases same : name = proto.name
      · rw [if_pos same]
        constructor
        · rintro other found
          obtain rfl := Option.some.inj found
          exact ⟨List.mem_append_right _ (List.mem_singleton_self _), same.symm⟩
        · intro other member called
          refine ⟨proto, rfl, ?_⟩
          rcases List.mem_append.mp member with old | new
          · have order := before other old proto (List.mem_singleton_self _)
            rcases (key_le_iff _ _).mp order with less | ⟨_, versions⟩
            · exact absurd (called.trans same) (ne_of_lt less)
            · exact versions
          · rw [List.mem_singleton.mp new]
      · rw [if_neg same]
        constructor
        · intro other found
          obtain ⟨member, called⟩ := among other found
          exact ⟨List.mem_append_left _ member, called⟩
        · intro other member called
          rcases List.mem_append.mp member with old | new
          · exact newest other old called
          · rw [List.mem_singleton.mp new] at called
            exact absurd called.symm same

theorem fold_laid {protocols ps : List (Protocol Name)}
    (sorted : ps.Pairwise fun p q => p.cap.key ≤ q.cap.key) (inside : ∀ p ∈ ps, p ∈ protocols)
    (fits : (protocols.map fun proto => proto.length.toNat).sum + 17 < 2 ^ 64) :
    ∃ chosen, Laid (ps.foldl assign (baseProtocolLength, ∅)).1
      (ps.foldl assign (baseProtocolLength, ∅)).2 chosen ∧ ∀ rw ∈ chosen, rw.proto ∈ ps := by
  induction ps using List.reverseRecOn with
  | nil =>
      refine ⟨[], ⟨fun name rw => ?_, rfl, List.Pairwise.nil⟩, List.forall_mem_nil _⟩
      simp
  | append_singleton ps proto induction =>
      obtain ⟨early, _, before⟩ := List.pairwise_append.mp sorted
      obtain ⟨chosen, laid, among⟩ := induction early fun p member =>
        inside p (List.mem_append_left _ member)
      have later : ∀ rw ∈ chosen, rw.proto.name ≤ proto.name := by
        intro rw member
        have order := before _ (among rw member) proto (List.mem_singleton_self _)
        rcases (key_le_iff _ _).mp order with less | ⟨same, _⟩
        · exact le_of_lt less
        · exact le_of_eq same
      rw [List.foldl_append, List.foldl_cons, List.foldl_nil]
      have next : ∀ rw ∈ stack chosen (ps.foldl assign (baseProtocolLength, ∅)).1 proto,
          rw.proto ∈ ps ++ [proto] := by
        intro rw member
        rcases stack_protos rfl member with same | old
        · rw [same]
          exact List.mem_append_right _ (List.mem_singleton_self _)
        · exact List.mem_append_left _ (among rw old)
      refine ⟨_, assign_laid laid later ?_, next⟩
      have sum := named_sum_le (stack_named _ laid.named later) fun rw member =>
        inside _ (next rw member)
      exact Nat.lt_of_le_of_lt (Nat.add_le_add_right sum 17) fits

theorem match_laid (protocols : List (Protocol Name)) (caps : List (Cap Name))
    (fits : (protocols.map fun proto => proto.length.toNat).sum + 17 < 2 ^ 64) :
    ∃ stop chosen, Laid stop (matchProtocols protocols caps) chosen := by
  obtain ⟨chosen, laid, _⟩ := fold_laid (met_sorted protocols caps)
    (fun p member => (mem_met member).1) fits
  rw [match_protocols_met]
  exact ⟨_, chosen, laid⟩

/-- Each name that both sides know runs once, in the newest version that both sides know. A
peer without any is the one that is dropped as useless. -/
theorem newest_common_version (protocols : List (Protocol Name)) (caps : List (Cap Name)) :
    (∀ name rw, (matchProtocols protocols caps).lookup name = some rw →
        rw.proto ∈ protocols ∧ rw.proto.cap ∈ caps ∧ rw.proto.name = name ∧
          ∀ proto ∈ protocols, proto.cap ∈ caps → proto.name = name →
            proto.version ≤ rw.proto.version) ∧
      (∀ name, (matchProtocols protocols caps).lookup name = none ↔
        ∀ proto ∈ protocols, proto.cap ∈ caps → proto.name ≠ name) ∧
      (countMatchingProtocols protocols caps = 0 ↔
        ∀ name, (matchProtocols protocols caps).lookup name = none) := by
  have spec (name : Name) : NewestOf (met protocols caps) name
      (((matchProtocols protocols caps).lookup name).map ProtoRW.proto) := by
    rw [match_protocols_met]
    exact fold_newest (met_sorted protocols caps) name
  have newest {proto : Protocol Name} (own : proto ∈ protocols) (sent : proto.cap ∈ caps) :
      ∃ rw, (matchProtocols protocols caps).lookup proto.name = some rw ∧
        proto.version ≤ rw.proto.version := by
    obtain ⟨other, member, same⟩ := met_of_common own sent
    obtain ⟨kept, found, newer⟩ := (spec proto.name).newest other member (congrArg Cap.name same)
    obtain ⟨rw, present, rfl⟩ := Option.map_eq_some_iff.mp found
    exact ⟨rw, present, Nat.le_trans (Nat.le_of_eq (congrArg Cap.version same).symm) newer⟩
  have missing (name : Name) : (matchProtocols protocols caps).lookup name = none ↔
      ∀ proto ∈ protocols, proto.cap ∈ caps → proto.name ≠ name := by
    rw [Option.eq_none_iff_forall_ne_some]
    constructor
    · rintro absent proto own sent rfl
      obtain ⟨rw, present, _⟩ := newest own sent
      exact absent rw present
    · intro none rw found
      obtain ⟨member, called⟩ := (spec name).among rw.proto (by rw [found]; rfl)
      obtain ⟨own, sent⟩ := mem_met member
      exact none rw.proto own sent called
  refine ⟨fun name rw found => ?_, missing, ?_⟩
  · obtain ⟨member, called⟩ := (spec name).among rw.proto (by rw [found]; rfl)
    obtain ⟨own, sent⟩ := mem_met member
    refine ⟨own, sent, called, ?_⟩
    rintro proto own' sent' rfl
    obtain ⟨other, present, newer⟩ := newest own' sent'
    rw [found, Option.some.injEq] at present
    rw [present]
    exact newer
  · rw [countMatchingProtocols, List.sum_eq_zero_iff]
    simp only [missing, List.mem_map, forall_exists_index, and_imp, forall_apply_eq_imp_iff₂,
      List.countP_eq_zero, decide_eq_true_eq]
    constructor
    · intro none name proto own sent _
      exact none proto.cap sent proto own rfl
    · intro none cap sent proto own same
      exact none proto.name proto own (by rw [same]; exact sent) rfl

end Loop

/-! ## Both sides -/

section Sides

variable {own other : List (Protocol Name)}

/-- The protocols of two sides: no version twice, and the same length on both sides. -/
structure Compatible (own other : List (Protocol Name)) : Prop where
  distinct : (own.map Protocol.cap).Nodup
  distinct' : (other.map Protocol.cap).Nodup
  lengths : ∀ p ∈ own, ∀ q ∈ other, p.cap = q.cap → p.length = q.length
  fits : (own.map fun proto => proto.length.toNat).sum + 17 < 2 ^ 64

omit [LinearOrder Name] in
theorem protocol_ext {p q : Protocol Name} (same : p.cap = q.cap) (long : p.length = q.length) :
    p = q := by
  obtain ⟨name, version, length⟩ := p
  obtain ⟨name', version', length'⟩ := q
  obtain ⟨rfl, rfl⟩ := (Cap.mk.injEq _ _ _ _).mp same
  subst long
  rfl

theorem mem_met_iff (distinct : (own.map Protocol.cap).Nodup)
    (lengths : ∀ p ∈ own, ∀ q ∈ other, p.cap = q.cap → p.length = q.length)
    (p : Protocol Name) : p ∈ met own (other.map Protocol.cap) ↔ p ∈ own ∧ p ∈ other := by
  constructor
  · intro member
    obtain ⟨mine, sent⟩ := mem_met member
    obtain ⟨q, theirs, same⟩ := List.mem_map.mp sent
    have equal := protocol_ext same (lengths p mine q theirs same.symm).symm
    rw [equal] at theirs
    exact ⟨mine, theirs⟩
  · rintro ⟨mine, theirs⟩
    obtain ⟨q, member, same⟩ := met_of_common mine (List.mem_map_of_mem theirs)
    rwa [← List.inj_on_of_nodup_map distinct (mem_met member).1 mine same]

theorem met_nodup (distinct : (other.map Protocol.cap).Nodup) :
    (met own (other.map Protocol.cap)).Nodup := by
  refine List.Nodup.filterMap (fun a b p atA atB => ?_)
    ((List.perm_insertionSort _ _).nodup_iff.mpr distinct)
  have first : p.cap = a := by simpa using List.find?_some atA
  have second : p.cap = b := by simpa using List.find?_some atB
  exact first.symm.trans second

theorem met_agree (compatible : Compatible own other) :
    met own (other.map Protocol.cap) = met other (own.map Protocol.cap) := by
  have mine := mem_met_iff compatible.distinct compatible.lengths
  have theirs := mem_met_iff compatible.distinct' fun q member p member' same =>
    (compatible.lengths p member' q member same.symm).symm
  refine List.Perm.eq_of_pairwise ?_ (met_sorted _ _) (met_sorted _ _)
    ((List.perm_ext_iff_of_nodup (met_nodup compatible.distinct') (met_nodup compatible.distinct)).mpr
      fun p => ?_)
  · intro p q inP inQ less more
    have keys := toLex.injective (le_antisymm less more)
    obtain ⟨names, versions⟩ := Prod.mk.inj keys
    refine List.inj_on_of_nodup_map compatible.distinct ((mine p).mp inP).1 ((theirs q).mp inQ).2 ?_
    exact (Cap.mk.injEq _ _ _ _).mpr ⟨names, versions⟩
  · rw [mine, theirs]
    exact and_comm

theorem match_agree (compatible : Compatible own other) :
    matchProtocols own (other.map Protocol.cap) = matchProtocols other (own.map Protocol.cap) := by
  rw [match_protocols_met, match_protocols_met, met_agree compatible]

/-- A message that a protocol writes on one side is read by the same protocol on the other
side, with the code it was written with, in whatever order that side goes through its
protocols. -/
theorem message_reaches_protocol (compatible : Compatible own other) {name : Name}
    {rw : ProtoRW Name}
    (running : (matchProtocols own (other.map Protocol.cap)).lookup name = some rw) {code : UInt64}
    (small : code < rw.proto.length) {order : List (ProtoRW Name)}
    (ranged : order.Perm
      ((matchProtocols other (own.map Protocol.cap)).entries.map fun entry => entry.2)) :
    ∃ sent, rw.writeCode code = some sent ∧ handle order sent = .delivered rw code := by
  obtain ⟨stop, chosen, laid⟩ := match_laid own (other.map Protocol.cap) compatible.fits
  obtain ⟨kept, called⟩ := (laid.entries name rw).mp running
  have bounds := stacked_ranges laid.stacked kept
  have top := stop.toNat_lt
  rw [UInt64.lt_iff_toNat_lt] at small
  have value : (code + rw.offset).toNat = code.toNat + rw.offset.toNat := by
    rw [UInt64.toNat_add]
    omega
  have inOrder (entry : ProtoRW Name) : entry ∈ order ↔ entry ∈ chosen := by
    rw [ranged.mem_iff, ← match_agree compatible, List.mem_map]
    constructor
    · rintro ⟨⟨key, value⟩, member, rfl⟩
      exact ((laid.entries key value).mp (AList.mem_lookup_iff.mpr member)).1
    · intro member
      exact ⟨⟨entry.proto.name, entry⟩,
        AList.mem_lookup_iff.mp ((laid.entries _ entry).mpr ⟨member, rfl⟩), rfl⟩
  have covers (entry : ProtoRW Name) (member : entry ∈ chosen) :
      (entry.offset ≤ code + rw.offset && code + rw.offset < entry.offset + entry.proto.length) =
        true ↔ entry.offset.toNat ≤ code.toNat + rw.offset.toNat ∧
          code.toNat + rw.offset.toNat < entry.offset.toNat + entry.proto.length.toNat := by
    have limit := (stacked_ranges laid.stacked member).2
    have sum : (entry.offset + entry.proto.length).toNat =
        entry.offset.toNat + entry.proto.length.toNat := by
      rw [UInt64.toNat_add]
      omega
    rw [Bool.and_eq_true, decide_eq_true_eq, decide_eq_true_eq, UInt64.le_iff_toNat_le,
      UInt64.lt_iff_toNat_lt, value, sum]
  have found : getProto order (code + rw.offset) = some rw := by
    cases search : getProto order (code + rw.offset) with
    | none =>
        refine absurd ((covers rw kept).mpr (by omega)) ?_
        exact List.find?_eq_none.mp search rw ((inOrder rw).mpr kept)
    | some entry =>
        have member := (inOrder entry).mp (List.mem_of_find?_eq_some search)
        rw [getProto] at search
        have fitting := List.find?_some search
        have inside := (covers entry member).mp fitting
        rw [stacked_apart laid.stacked member kept inside (by omega)]
  refine ⟨code + rw.offset, ?_, ?_⟩
  · rw [ProtoRW.writeCode, if_neg]
    rw [UInt64.le_iff_toNat_le]
    omega
  · have base : ∀ low : UInt64, low.toNat < 17 → code + rw.offset ≠ low := by
      rintro _ below rfl
      omega
    have past : ¬code + rw.offset < baseProtocolLength := by
      rw [UInt64.lt_iff_toNat_lt, value]
      change ¬_ < 17
      omega
    rw [handle, if_neg (base pingMsg (by decide)), if_neg (base discMsg (by decide)), if_neg past,
      found]
    dsimp only
    rw [ProtoRW.readCode, UInt64.add_sub_cancel]

def sampleOwn : List (Protocol ℕ) := [⟨0, 62, 8⟩, ⟨0, 63, 17⟩, ⟨1, 1, 5⟩]

def sampleOther : List (Protocol ℕ) := [⟨1, 1, 5⟩, ⟨2, 1, 4⟩, ⟨0, 63, 17⟩, ⟨0, 62, 8⟩]

theorem sampled_message_reaches :
    ∃ sent, ProtoRW.writeCode (⟨⟨1, 1, 5⟩, 34⟩ : ProtoRW ℕ) 3 = some sent ∧
      handle [⟨⟨1, 1, 5⟩, 34⟩, ⟨⟨0, 63, 17⟩, 17⟩] sent = .delivered ⟨⟨1, 1, 5⟩, 34⟩ 3 :=
  have compatible : Compatible sampleOwn sampleOther :=
    ⟨by decide, by decide, by decide, by decide⟩
  have running : (matchProtocols sampleOwn (sampleOther.map Protocol.cap)).lookup 1 =
      some ⟨⟨1, 1, 5⟩, 34⟩ := by decide
  message_reaches_protocol compatible running (by decide) (by decide)

end Sides

end PbftBlock.SubProtocols
