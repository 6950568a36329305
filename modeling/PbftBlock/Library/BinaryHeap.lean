import Mathlib.Data.List.Perm.Basic
import Mathlib.Order.Lattice

/-!
# Binary heaps

A heap in an array: the parent of the element at `i` stands at `(i - 1) / 2` and is not larger.
Elements are compared by a key. A new element rises from the end, and the element that replaces
the first one sinks from the front.
-/

namespace PbftBlock.Library.BinaryHeap

set_option autoImplicit false

variable {α K : Type*} [LinearOrder K] (key : α → K) {n : ℕ}

def parent (i : ℕ) : ℕ := (i - 1) / 2

theorem parent_lt {i : ℕ} (positive : 0 < i) : parent i < i := by
  unfold parent
  omega

theorem parent_le (i : ℕ) : parent i ≤ i := by
  unfold parent
  omega

def up (a : Vector α n) (j : ℕ) (inside : j < n) : Vector α n :=
  have above : parent j < n := Nat.lt_of_le_of_lt (parent_le j) inside
  if 0 < j ∧ key a[j] < key a[parent j] then up (a.swap (parent j) j) (parent j) above else a
termination_by j
decreasing_by exact parent_lt (by omega)

def lesserChild (a : Vector α n) (i : ℕ) (left : 2 * i + 1 < n) : ℕ :=
  if right : 2 * i + 2 < n then
    if key a[2 * i + 2] < key a[2 * i + 1] then 2 * i + 2 else 2 * i + 1
  else 2 * i + 1

theorem lesser_child_spec (a : Vector α n) (i : ℕ) (left : 2 * i + 1 < n) :
    lesserChild key a i left < n ∧ i < lesserChild key a i left ∧
      parent (lesserChild key a i left) = i := by
  unfold lesserChild parent
  split_ifs <;> omega

def down (a : Vector α n) (i : ℕ) (inside : i < n) : Vector α n :=
  if left : 2 * i + 1 < n then
    have child := lesser_child_spec key a i left
    have below := child.1
    if key a[lesserChild key a i left] < key a[i] then
      down (a.swap i (lesserChild key a i left)) (lesserChild key a i left) below
    else a
  else a
termination_by n - i
decreasing_by exact Nat.sub_lt_sub_left inside (lesser_child_spec key a i left).2.1

def push (a : Array α) (x : α) : Array α :=
  have inside : a.size < (a.push x).size := by simp
  (up key (a.push x).toVector a.size inside).toArray

/-- The first element, and the others. The last element takes its place; it is behind the ones
that sinking looks at, so that it may be taken off first. -/
def pop (a : Array α) : Option (α × Array α) :=
  if some : 0 < a.size then
    have last : a.size - 1 < a.size := by omega
    let rest := (a.swap 0 (a.size - 1)).pop
    if more : 0 < rest.size then Option.some (a[0], (down key rest.toVector 0 more).toArray)
    else Option.some (a[0], rest)
  else none

def Ordered (a : Vector α n) : Prop :=
  ∀ i (inside : i < n) (above : parent i < n), 0 < i → key a[parent i] ≤ key a[i]

/-- The order except for the element at `j`, which may be smaller than its parent. -/
structure Rising (a : Vector α n) (j : ℕ) : Prop where
  others : ∀ i (inside : i < n) (above : parent i < n), 0 < i → i ≠ j → key a[parent i] ≤ key a[i]
  children : ∀ i (inside : i < n) (above : parent j < n), 0 < i → parent i = j → 0 < j →
    key a[parent j] ≤ key a[i]

/-- The order except for the element at `j`, which may be larger than its children. -/
structure Sinking (a : Vector α n) (j : ℕ) : Prop where
  others : ∀ i (inside : i < n) (above : parent i < n), 0 < i → parent i ≠ j →
    key a[parent i] ≤ key a[i]
  children : ∀ i (inside : i < n) (above : parent j < n), 0 < i → parent i = j → 0 < j →
    key a[parent j] ≤ key a[i]

variable {key} {a : Vector α n} {i j : ℕ}

theorem rising_swap (inside : j < n) (above : parent j < n) (positive : 0 < j)
    (rising : Rising key a j) (smaller : key a[j] < key a[parent j]) :
    Rising key (a.swap (parent j) j) (parent j) := by
  have lower := parent_lt positive
  constructor
  · intro i insideI aboveI positiveI apart
    rw [Vector.getElem_swap, Vector.getElem_swap]
    have own := rising.others i insideI aboveI positiveI
    have under := rising.children i insideI above positiveI
    have parents := parent_lt positiveI
    grind
  · intro i insideI aboveI positiveI child positiveJ
    rw [Vector.getElem_swap, Vector.getElem_swap]
    have own := rising.others i insideI (by omega) positiveI
    have beyond := rising.others (parent j) above aboveI positiveJ (by omega)
    have parents := parent_lt positiveJ
    grind

theorem up_ordered (inside : j < n) (rising : Rising key a j) : Ordered key (up key a j inside) := by
  fun_induction up key a j inside with
  | case1 a j inside above rises induction =>
      exact induction (rising_swap inside above rises.1 rising rises.2)
  | case2 a j inside above rests =>
      intro i insideI aboveI positive
      by_cases same : i = j
      · subst same
        exact not_lt.mp fun smaller => rests ⟨positive, smaller⟩
      · exact rising.others i insideI aboveI positive same

theorem up_perm (key : α → K) (a : Vector α n) (inside : j < n) : (up key a j inside).toList.Perm a.toList := by
  fun_induction up key a j inside with
  | case1 a j inside above rises induction => exact induction.trans (Vector.swap_perm _ _).toList
  | case2 a j inside above rests => exact .refl _

theorem lesser_child_le (left : 2 * i + 1 < n) (chosen : lesserChild key a i left < n) {k : ℕ}
    (inside : k < n) (positive : 0 < k) (child : parent k = i) :
    key a[lesserChild key a i left] ≤ key a[k] := by
  have place : k = 2 * i + 1 ∨ k = 2 * i + 2 := by
    unfold parent at child
    omega
  grind [lesserChild]

theorem sinking_swap (inside : i < n) (left : 2 * i + 1 < n)
    (chosen : lesserChild key a i left < n) (sinking : Sinking key a i)
    (smaller : key a[lesserChild key a i left] < key a[i]) :
    Sinking key (a.swap i (lesserChild key a i left)) (lesserChild key a i left) := by
  obtain ⟨_, later, child⟩ := lesser_child_spec key a i left
  have least {k : ℕ} (insideK : k < n) := lesser_child_le left chosen insideK
  generalize lesserChild key a i left = j at *
  constructor
  · intro k insideK aboveK positiveK apart
    rw [Vector.getElem_swap, Vector.getElem_swap]
    have own := sinking.others k insideK aboveK positiveK
    have beyond := sinking.children j chosen
    have lesser := least insideK positiveK
    have parents := parent_lt positiveK
    grind
  · intro k insideK aboveK positiveK below positiveJ
    rw [Vector.getElem_swap, Vector.getElem_swap]
    have own := sinking.others k insideK (by omega) positiveK
    have parents := parent_lt positiveK
    grind

theorem down_ordered (inside : i < n) (sinking : Sinking key a i) :
    Ordered key (down key a i inside) := by
  fun_induction down key a i inside with
  | case1 a i inside left child below smaller induction =>
      exact induction (sinking_swap inside left below sinking smaller)
  | case2 a i inside left child below rests =>
      intro k insideK aboveK positive
      by_cases same : parent k = i
      · subst same
        exact le_trans (not_lt.mp rests) (lesser_child_le left below insideK positive rfl)
      · exact sinking.others k insideK aboveK positive same
  | case3 a i inside leaf =>
      intro k insideK aboveK positive
      refine sinking.others k insideK aboveK positive fun same => leaf ?_
      unfold parent at same
      omega

theorem down_perm (key : α → K) (a : Vector α n) (inside : i < n) : (down key a i inside).toList.Perm a.toList := by
  fun_induction down key a i inside with
  | case1 a i inside left child below smaller induction =>
      exact induction.trans (Vector.swap_perm _ _).toList
  | case2 a i inside left child below rests => exact .refl _
  | case3 a i inside leaf => exact .refl _

theorem ordered_first (ordered : Ordered key a) (first : 0 < n) (inside : i < n) :
    key a[0] ≤ key a[i] := by
  induction i using Nat.strongRecOn with
  | ind i induction =>
      by_cases positive : 0 < i
      · have less := parent_lt positive
        have above : parent i < n := by omega
        exact le_trans (induction (parent i) less above) (ordered i inside above positive)
      · obtain rfl : i = 0 := by omega
        exact le_refl _

section Elements

variable {a : Array α}

variable (key) in
def IsHeap (a : Array α) : Prop :=
  ∀ i (inside : i < a.size) (above : parent i < a.size), 0 < i → key a[parent i] ≤ key a[i]

theorem is_heap_of_ordered {v : Vector α n} (ordered : Ordered key v) : IsHeap key v.toArray := by
  intro i inside above positive
  rw [v.size_toArray] at inside above
  exact ordered i inside above positive

theorem is_heap_empty : IsHeap key (#[] : Array α) := by
  intro i inside
  exact absurd inside (Nat.not_lt_zero i)

theorem push_perm (x : α) : (push key a x).toList.Perm (x :: a.toList) := by
  have moved := up_perm key (a.push x).toVector (j := a.size) (by simp)
  unfold push
  refine moved.trans ?_
  rw [Vector.toList_mk, Array.toList_push]
  exact List.perm_append_comm

theorem push_heap (heap : IsHeap key a) (x : α) : IsHeap key (push key a x) := by
  have rising : Rising key (a.push x).toVector a.size := by
    constructor
    · intro i inside above positive apart
      rw [Array.size_push] at inside above
      have older : i < a.size := by omega
      have parents := parent_lt positive
      have order := heap i older (by omega) positive
      simp only [Vector.getElem_mk]
      rw [Array.getElem_push_lt older, Array.getElem_push_lt (by omega)]
      exact order
    · intro i inside above positive child
      rw [Array.size_push] at inside
      have parents := parent_lt positive
      omega
  exact is_heap_of_ordered (up_ordered (by simp) rising)

theorem heap_first (heap : IsHeap key a) (some : 0 < a.size) {y : α} (member : y ∈ a) :
    key a[0] ≤ key y := by
  obtain ⟨i, inside, rfl⟩ := Array.getElem_of_mem member
  exact ordered_first (a := a.toVector) heap some inside

/-- The array with its last element in the place of the first. -/
theorem last_to_front (some : 0 < a.size) (last : a.size - 1 < a.size) :
    a.toList.Perm (a[0] :: (a.swap 0 (a.size - 1)).pop.toList) := by
  have swapped : (a.swap 0 (a.size - 1)).toList.Perm a.toList := (Array.swap_perm some last).toList
  have nonempty : (a.swap 0 (a.size - 1)).toList ≠ [] := by
    rw [← List.length_pos_iff, Array.length_toList, Array.size_swap]
    exact some
  have end' : (a.swap 0 (a.size - 1)).toList.getLast nonempty = a[0] := by
    rw [List.getLast_eq_getElem, Array.getElem_toList]
    simp
  have split := List.dropLast_append_getLast nonempty
  rw [end', ← Array.toList_pop] at split
  refine swapped.symm.trans ?_
  rw [← split]
  exact List.perm_append_comm

theorem last_to_front_sinking (heap : IsHeap key a) (some : 0 < a.size)
    (last : a.size - 1 < a.size) : Sinking key (a.swap 0 (a.size - 1)).pop.toVector 0 := by
  constructor
  · intro i inside above positive apart
    simp only [Array.size_pop, Array.size_swap] at inside above
    have order := heap i (by omega) (by omega) positive
    simp only [Vector.getElem_mk, Array.getElem_pop]
    rw [Array.getElem_swap_of_ne (by omega) (by omega), Array.getElem_swap_of_ne (by omega) (by omega)]
    exact order
  · intro i inside above positive child zero
    exact absurd zero (Nat.lt_irrefl 0)

theorem pop_spec (heap : IsHeap key a) (some : 0 < a.size) :
    ∃ rest, pop key a = Option.some (a[0], rest) ∧ a.toList.Perm (a[0] :: rest.toList) ∧
      IsHeap key rest := by
  have last : a.size - 1 < a.size := by omega
  have front := last_to_front some last
  have sinking := last_to_front_sinking heap some last
  rw [pop, dif_pos some]
  dsimp only
  split_ifs with more
  · have sunk := down_perm key (a.swap 0 (a.size - 1)).pop.toVector more
    exact ⟨_, rfl, front.trans (sunk.symm.cons _), is_heap_of_ordered (down_ordered more sinking)⟩
  · refine ⟨_, rfl, front, fun i inside => ?_⟩
    omega

end Elements

end PbftBlock.Library.BinaryHeap
