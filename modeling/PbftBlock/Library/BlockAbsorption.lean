import Mathlib.Tactic.Ring

/-!
# Absorbing input block by block

A running hash compresses its input in blocks of a fixed size and keeps the rest
until more input arrives. How the input is cut into calls makes no difference:
the blocks taken from two calls are those taken from their concatenation.
-/

namespace PbftBlock.Library.BlockAbsorption

set_option autoImplicit false

variable {State Byte : Type*} (size : Nat) (compress : State → List Byte → State)

def foldBlocks : Nat → State → List Byte → State
  | 0, state, _ => state
  | count + 1, state, input =>
      foldBlocks count (compress state (input.take size)) (input.drop size)

/-- Compresses all whole blocks of the input. -/
def absorbWhole (state : State) (input : List Byte) : State :=
  foldBlocks size compress (input.length / size) state input

/-- What is left of the input after its whole blocks. -/
def leftover (input : List Byte) : List Byte := input.drop (input.length / size * size)

theorem fold_blocks_add (early late : Nat) (state : State) (input : List Byte) :
    foldBlocks size compress (early + late) state input =
      foldBlocks size compress late (foldBlocks size compress early state input)
        (input.drop (early * size)) := by
  induction early generalizing state input with
  | zero => simp [foldBlocks]
  | succ early induction =>
      rw [show early + 1 + late = early + late + 1 by omega, foldBlocks, induction, foldBlocks,
        List.drop_drop, show size + early * size = (early + 1) * size by ring]

theorem fold_blocks_within (count : Nat) (state : State) (input more : List Byte)
    (inside : count * size ≤ input.length) :
    foldBlocks size compress count state (input ++ more) =
      foldBlocks size compress count state input := by
  induction count generalizing state input with
  | zero => rfl
  | succ count induction =>
      have room : size + count * size ≤ input.length := by
        calc size + count * size = (count + 1) * size := by ring
          _ ≤ input.length := inside
      have first : size ≤ input.length := by omega
      rw [foldBlocks, foldBlocks, List.take_append_of_le_length first,
        List.drop_append_of_le_length first]
      apply induction
      rw [List.length_drop]
      omega

theorem leftover_length (input : List Byte) :
    (leftover size input).length = input.length % size := by
  rw [leftover, List.length_drop]
  have split := Nat.div_add_mod input.length size
  rw [Nat.mul_comm] at split
  omega

section Positive

variable (positive : 0 < size) (state : State) (input more : List Byte)

include positive

theorem whole_blocks_append :
    (input ++ more).length / size =
      input.length / size + (leftover size input ++ more).length / size := by
  rw [List.length_append, List.length_append, leftover_length]
  have split := Nat.div_add_mod input.length size
  calc (input.length + more.length) / size
      = (input.length % size + more.length + size * (input.length / size)) / size := by
        congr 1
        omega
    _ = input.length / size + (input.length % size + more.length) / size := by
        rw [Nat.add_mul_div_left _ _ positive, Nat.add_comm]

theorem absorb_whole_append :
    absorbWhole size compress state (input ++ more) =
      absorbWhole size compress (absorbWhole size compress state input)
        (leftover size input ++ more) := by
  have inside : input.length / size * size ≤ input.length := Nat.div_mul_le_self _ _
  unfold absorbWhole
  rw [whole_blocks_append size positive, fold_blocks_add,
    fold_blocks_within size compress _ state input more inside,
    List.drop_append_of_le_length inside]
  rfl

theorem leftover_append :
    leftover size (input ++ more) = leftover size (leftover size input ++ more) := by
  have inside : input.length / size * size ≤ input.length := Nat.div_mul_le_self _ _
  have cut : leftover size input ++ more = (input ++ more).drop (input.length / size * size) := by
    rw [List.drop_append_of_le_length inside]
    rfl
  conv_lhs => rw [leftover, whole_blocks_append size positive, Nat.add_mul, ← List.drop_drop]
  conv_rhs => rw [leftover]
  rw [← cut]

theorem leftover_short : (leftover size input).length < size := by
  rw [leftover_length]
  exact Nat.mod_lt _ positive

end Positive

theorem leftover_of_short {input : List Byte} (short : input.length < size) :
    leftover size input = input := by
  rw [leftover, Nat.div_eq_of_lt short, Nat.zero_mul, List.drop_zero]

theorem absorb_whole_of_short (state : State) {input : List Byte} (short : input.length < size) :
    absorbWhole size compress state input = state := by
  rw [absorbWhole, Nat.div_eq_of_lt short]
  rfl

end PbftBlock.Library.BlockAbsorption
