import Mathlib.Data.List.Perm.Basic
import Mathlib.Order.Lattice
import Mathlib.Tactic.SplitIfs

/-!
# The smallest elements in order

A list that keeps the `k` smallest of the elements it was given, in order. A new element is put
where it belongs; if the list is full, the last one falls off.
-/

namespace PbftBlock.Library.SmallestFirst

set_option autoImplicit false

variable {α K : Type*} [LinearOrder K] {key : α → K} {k : ℕ} {given entries : List α}

/-- `entries` are the `k` smallest of the elements `given`. -/
structure Smallest (key : α → K) (k : ℕ) (given entries : List α) : Prop where
  sorted : entries.Pairwise fun a b => key a ≤ key b
  length : entries.length = min k given.length
  split : ∃ rest, given.Perm (entries ++ rest) ∧ ∀ e ∈ entries, ∀ r ∈ rest, key e ≤ key r

theorem smallest_nil (key : α → K) (k : ℕ) : Smallest key k [] [] :=
  ⟨List.Pairwise.nil, (Nat.min_zero k).symm, [], .nil, List.forall_mem_nil _⟩

theorem smallest_mem (smallest : Smallest key k given entries) {e : α} (member : e ∈ entries) :
    e ∈ given := by
  obtain ⟨rest, perm, _⟩ := smallest.split
  exact perm.mem_iff.mpr (List.mem_append_left _ member)

theorem smallest_perm {other : List α} (smallest : Smallest key k given entries)
    (same : given.Perm other) : Smallest key k other entries := by
  obtain ⟨rest, perm, below⟩ := smallest.split
  exact ⟨smallest.sorted, by rw [smallest.length, same.length_eq], rest, same.symm.trans perm, below⟩

/-- Puts `x` at `i`, after the elements that are not larger. -/
def insertBounded (k : ℕ) (entries : List α) (i : ℕ) (x : α) : List α :=
  let grown := if entries.length < k then entries ++ [x] else entries
  if i = grown.length then grown else grown.take i ++ x :: (grown.drop i).dropLast

theorem insert_room {i : ℕ} (room : entries.length < k) (inside : i ≤ entries.length) (x : α) :
    insertBounded k entries i x = entries.take i ++ x :: entries.drop i := by
  rw [insertBounded, if_pos room,
    if_neg (by rw [List.length_append, List.length_singleton]; omega),
    List.take_append_of_le_length inside, List.drop_append_of_le_length inside,
    List.dropLast_concat]

variable {i : ℕ} {x : α}

theorem insert_sorted (sorted : entries.Pairwise fun a b => key a ≤ key b)
    (before : ∀ e ∈ entries.take i, key e ≤ key x) (behind : ∀ e ∈ entries.drop i, key x ≤ key e) :
    (entries.take i ++ x :: entries.drop i).Pairwise fun a b => key a ≤ key b := by
  rw [← List.take_append_drop i entries, List.pairwise_append] at sorted
  obtain ⟨first, last, across⟩ := sorted
  refine List.pairwise_append.mpr ⟨first, List.pairwise_cons.mpr ⟨behind, last⟩, ?_⟩
  intro a early b late
  rcases List.mem_cons.mp late with rfl | late
  · exact before a early
  · exact across a early b late

theorem smallest_insert (smallest : Smallest key k given entries) (inside : i ≤ entries.length)
    (before : ∀ e ∈ entries.take i, key e ≤ key x) (behind : ∀ e ∈ entries.drop i, key x ≤ key e) :
    Smallest key k (x :: given) (insertBounded k entries i x) := by
  have sorted := insert_sorted smallest.sorted before behind
  have size := smallest.length
  obtain ⟨rest, perm, below⟩ := smallest.split
  have sizes := perm.length_eq
  rw [List.length_append] at sizes
  by_cases room : entries.length < k
  · -- nothing was left out before, and nothing is now
    obtain rfl : rest = [] := List.length_eq_zero_iff.mp (by omega)
    rw [insert_room room inside]
    refine ⟨sorted, ?_, [], ?_, fun _ _ _ none => absurd none List.not_mem_nil⟩
    · rw [List.length_append, List.length_cons, List.length_take, List.length_drop,
        List.length_cons]
      omega
    · rw [List.append_nil]
      rw [List.append_nil] at perm
      refine (perm.cons x).trans (List.Perm.trans ?_ List.perm_middle.symm)
      rw [List.take_append_drop]
  · rw [insertBounded, if_neg room]
    split_ifs with last
    · -- the new element is not smaller than any
      rw [last, List.take_length] at before
      refine ⟨smallest.sorted, by rw [List.length_cons]; omega, x :: rest, ?_, ?_⟩
      · exact (perm.cons x).trans List.perm_middle.symm
      · intro e member r out
        rcases List.mem_cons.mp out with rfl | out
        · exact before e member
        · exact below e member r out
    · have some : entries.drop i ≠ [] := by
        rw [Ne, List.drop_eq_nil_iff]
        omega
      have split := List.dropLast_append_getLast some
      rw [← split, ← List.cons_append, ← List.append_assoc, List.pairwise_append] at sorted
      obtain ⟨kept, _, under⟩ := sorted
      have under (e : α) (member : e ∈ entries.take i ++ x :: (entries.drop i).dropLast) :
          key e ≤ key ((entries.drop i).getLast some) :=
        under e member _ (List.mem_singleton.mpr rfl)
      have old : (entries.drop i).getLast some ∈ entries :=
        List.mem_of_mem_drop (List.getLast_mem some)
      refine ⟨kept, ?_, (entries.drop i).getLast some :: rest, ?_, ?_⟩
      · rw [List.length_append, List.length_cons, List.length_dropLast, List.length_take,
          List.length_drop, List.length_cons]
        omega
      · have moved : (x :: entries).Perm
            (entries.take i ++ x :: (entries.drop i).dropLast ++ [(entries.drop i).getLast some]) := by
          rw [List.append_assoc, List.cons_append, split]
          refine List.Perm.trans ?_ List.perm_middle.symm
          rw [List.take_append_drop]
        have both := moved.append_right rest
        rw [List.append_assoc, List.singleton_append] at both
        exact (perm.cons x).trans both
      · intro e member r out
        rcases List.mem_cons.mp out with rfl | out
        · exact under e member
        · exact le_trans (under e member) (below _ old r out)

end PbftBlock.Library.SmallestFirst
