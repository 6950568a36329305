import PbftBlock.Library.FiniteMaps
import Mathlib.Data.List.Count

/-!
# Tallies in a map and the strict maximum of a scan

A tally counts the ballots that pass a test under a key each of them carries.
The second half is the usual search for the largest count: a scan that replaces
its candidate only by a strictly larger entry. Which of several largest entries
it ends with depends on the order of the scan; how large that entry is does not.
-/

namespace PbftBlock.Library.Tallies

open PbftBlock.Library.FiniteMaps

set_option autoImplicit false

section Counting

variable {Ballot Key : Type*} [DecidableEq Key] (admitted : Ballot → Bool) (key : Ballot → Key)

def record (counts : FiniteMap Key Nat) (ballot : Ballot) : FiniteMap Key Nat :=
  if admitted ballot then
    counts.insert (key ballot) ((counts.lookup (key ballot)).getD 0 + 1)
  else counts

def tally (ballots : List Ballot) : FiniteMap Key Nat := ballots.foldl (record admitted key) ∅

def support (ballots : List Ballot) (value : Key) : Nat :=
  ballots.countP fun ballot => admitted ballot && decide (key ballot = value)

/-- The count stored for a key; a key without a ballot has no entry. -/
def Counts (counts : FiniteMap Key Nat) (number : Key → Nat) : Prop :=
  ∀ value, counts.lookup value = if number value = 0 then none else some (number value)

theorem counts_record {counts : FiniteMap Key Nat} {number : Key → Nat}
    (exact : Counts counts number) (ballot : Ballot) :
    Counts (record admitted key counts ballot) fun value =>
      number value + if admitted ballot && decide (key ballot = value) then 1 else 0 := by
  intro value
  unfold record
  by_cases counted : admitted ballot = true
  · have stored : (counts.lookup (key ballot)).getD 0 = number (key ballot) := by
      rw [exact (key ballot)]
      split_ifs with empty
      · exact empty.symm
      · rfl
    rw [if_pos counted, lookup_insert_eq, stored]
    by_cases same : value = key ballot
    · subst same
      simp [counted]
    · have other : ¬key ballot = value := fun eq => same eq.symm
      rw [if_neg same, exact value]
      simp [other]
  · rw [if_neg counted, exact value]
    simp [counted]

theorem counts_tally_from (ballots : List Ballot) {counts : FiniteMap Key Nat}
    {number : Key → Nat} (exact : Counts counts number) :
    Counts (ballots.foldl (record admitted key) counts) fun value =>
      number value + support admitted key ballots value := by
  induction ballots generalizing counts number with
  | nil => exact exact
  | cons ballot rest induction =>
      have total : (fun value => number value + support admitted key (ballot :: rest) value) =
          fun value => number value + (if admitted ballot && decide (key ballot = value) then 1 else 0) +
            support admitted key rest value := by
        funext value
        unfold support
        rw [List.countP_cons]
        omega
      rw [total]
      exact induction (counts_record admitted key exact ballot)

theorem counts_tally (ballots : List Ballot) :
    Counts (tally admitted key ballots) (support admitted key ballots) := by
  have start : Counts (∅ : FiniteMap Key Nat) fun _ => 0 := fun _ => rfl
  simpa [tally] using counts_tally_from admitted key ballots start

theorem mem_tally (ballots : List Ballot) (value : Key) (count : Nat) :
    Sigma.mk value count ∈ (tally admitted key ballots).entries ↔
      count = support admitted key ballots value ∧ 0 < count := by
  have stored : (tally admitted key ballots).lookup value = some count ↔
      Sigma.mk value count ∈ (tally admitted key ballots).entries := AList.mem_lookup_iff
  rw [← stored, counts_tally admitted key ballots value]
  split_ifs with empty
  · constructor
    · intro absurdity
      cases absurdity
    · rintro ⟨same, positive⟩
      omega
  · constructor
    · intro same
      have count := Option.some.inj same
      exact ⟨count.symm, by omega⟩
    · rintro ⟨same, _⟩
      rw [same]

end Counting

section Maximum

variable {Key : Type*}

abbrev Entry (Key : Type*) := Sigma fun _ : Key => Nat

def larger (best : Key × Nat) (entry : Entry Key) : Key × Nat :=
  if best.2 < entry.2 then (entry.1, entry.2) else best

/-- What the scan ends with is at least as large as all it has seen, and is
either where it started or one of the entries. -/
theorem scan_largest (entries : List (Entry Key)) (start : Key × Nat) :
    start.2 ≤ (entries.foldl larger start).2 ∧
      (∀ entry ∈ entries, entry.2 ≤ (entries.foldl larger start).2) ∧
      (entries.foldl larger start = start ∨
        Sigma.mk (entries.foldl larger start).1 (entries.foldl larger start).2 ∈ entries) := by
  induction entries generalizing start with
  | nil => exact ⟨Nat.le_refl _, by simp, .inl rfl⟩
  | cons entry rest induction =>
      rw [List.foldl_cons]
      obtain ⟨above, bounds, origin⟩ := induction (larger start entry)
      have step : start.2 ≤ (larger start entry).2 ∧ entry.2 ≤ (larger start entry).2 ∧
          (larger start entry = start ∨ larger start entry = (entry.1, entry.2)) := by
        unfold larger
        split_ifs with less
        · exact ⟨Nat.le_of_lt less, Nat.le_refl _, .inr rfl⟩
        · exact ⟨Nat.le_refl _, Nat.le_of_not_lt less, .inl rfl⟩
      refine ⟨Nat.le_trans step.1 above, ?_, ?_⟩
      · intro seen member
        rcases List.mem_cons.mp member with same | later
        · rw [same]
          exact Nat.le_trans step.2.1 above
        · exact bounds seen later
      · rcases origin with unchanged | found
        · rw [unchanged]
          rcases step.2.2 with kept | replaced
          · exact .inl kept
          · rw [replaced]
            exact .inr List.mem_cons_self
        · exact .inr (List.mem_cons_of_mem _ found)

end Maximum

section Majorities

variable {Ballot Key : Type*} [DecidableEq Key] {admitted : Ballot → Bool} {key : Ballot → Key}

theorem support_add_le (admitted : Ballot → Bool) (key : Ballot → Key) (ballots : List Ballot)
    {left right : Key} (different : left ≠ right) :
    support admitted key ballots left + support admitted key ballots right ≤ ballots.length := by
  induction ballots with
  | nil => exact Nat.le_refl _
  | cons ballot rest induction =>
      unfold support at *
      rw [List.countP_cons, List.countP_cons, List.length_cons]
      have once : ¬((admitted ballot && decide (key ballot = left)) = true ∧
          (admitted ballot && decide (key ballot = right)) = true) := by
        rintro ⟨isLeft, isRight⟩
        rw [Bool.and_eq_true, decide_eq_true_iff] at isLeft isRight
        exact different (isLeft.2.symm.trans isRight.2)
      split_ifs with isLeft isRight
      · exact absurd ⟨isLeft, isRight⟩ once
      all_goals omega

/-- More than half of the ballots go to at most one key. -/
theorem majority_unique {ballots : List Ballot} {quorum : Nat}
    (majority : ballots.length < 2 * quorum) {left right : Key}
    (leftReached : quorum ≤ support admitted key ballots left)
    (rightReached : quorum ≤ support admitted key ballots right) : left = right := by
  by_contra different
  have bound := support_add_le admitted key ballots different
  omega

/-- In whatever order the tally is scanned, a key with a majority is found. -/
theorem scan_finds_majority {ballots : List Ballot} {quorum : Nat}
    (majority : ballots.length < 2 * quorum) {value : Key}
    (reached : quorum ≤ support admitted key ballots value)
    {entries : List (Entry Key)} (order : entries.Perm (tally admitted key ballots).entries)
    (start : Key) :
    entries.foldl larger (start, 0) = (value, support admitted key ballots value) := by
  obtain ⟨_, bounds, origin⟩ := scan_largest entries (start, 0)
  have positive : 0 < support admitted key ballots value := by omega
  have listed : Sigma.mk value (support admitted key ballots value) ∈ entries :=
    order.mem_iff.mpr ((mem_tally admitted key ballots _ _).mpr ⟨rfl, positive⟩)
  have enough : support admitted key ballots value ≤ (entries.foldl larger (start, 0)).2 :=
    bounds _ listed
  rcases origin with unchanged | found
  · rw [unchanged] at enough
    exact absurd enough (Nat.not_le.mpr positive)
  · obtain ⟨count, _⟩ := (mem_tally admitted key ballots _ _).mp (order.mem_iff.mp found)
    have same : (entries.foldl larger (start, 0)).1 = value :=
      majority_unique majority (by rw [← count]; omega) reached
    refine Prod.ext same ?_
    rw [count, same]

/-- Without a key that reaches the quorum the scan stays below it. -/
theorem scan_below_quorum {ballots : List Ballot} {quorum : Nat} (positive : 0 < quorum)
    (short : ∀ value, support admitted key ballots value < quorum)
    {entries : List (Entry Key)} (order : entries.Perm (tally admitted key ballots).entries)
    (start : Key) : (entries.foldl larger (start, 0)).2 < quorum := by
  obtain ⟨_, _, origin⟩ := scan_largest entries (start, 0)
  rcases origin with unchanged | found
  · rw [unchanged]
    exact positive
  · obtain ⟨count, _⟩ := (mem_tally admitted key ballots _ _).mp (order.mem_iff.mp found)
    rw [count]
    exact short _

end Majorities

end PbftBlock.Library.Tallies
