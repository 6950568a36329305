import Mathlib.Data.List.Forall2
import Mathlib.Tactic.Ring

/-!
# Words of 32 bits

Rotations, and the two shifts that programs write for one. A word tracks an integer when it is
that integer modulo `2 ^ 32`: sums and differences are tracked without looking at wraps, and only
where a program compares or shifts a word does it matter in which range the integer is. Lists of
such integers are limbs whose widths alternate; they may be negative or wider than their place,
so that the value can be followed through delayed carries and borrows.
-/

namespace PbftBlock.Library.Words

set_option autoImplicit false

/-! ## Rotations -/

section Rotations

def rotateLeft (x : UInt32) (n : Nat) : UInt32 := ⟨x.toBitVec.rotateLeft n⟩

theorem rotate_left_xor (x y : UInt32) (n : Nat) :
    rotateLeft (x ^^^ y) n = rotateLeft x n ^^^ rotateLeft y n := by
  apply UInt32.eq_of_toBitVec_eq
  simp only [rotateLeft, UInt32.toBitVec_xor]
  ext i inside
  simp only [BitVec.getElem_rotateLeft, BitVec.getElem_xor]
  split <;> rfl

theorem shifts_eq_rotate_left (x : UInt32) {n : UInt32} (small : n < 32) :
    (x <<< n) ||| (x >>> (32 - n)) = rotateLeft x n.toNat := by
  have bound : n.toNat < 32 := UInt32.lt_iff_toNat_lt.mp small
  apply UInt32.eq_of_toBitVec_eq
  rw [rotateLeft, BitVec.rotateLeft_eq_rotateLeftAux_of_lt bound, BitVec.rotateLeftAux,
    UInt32.toBitVec_or, UInt32.toBitVec_shiftLeft, UInt32.toBitVec_shiftRight,
    BitVec.shiftLeft_eq', BitVec.ushiftRight_eq']
  by_cases zero : n = 0
  · have gone : x.toBitVec >>> 32 = 0 := BitVec.ushiftRight_eq_zero (Nat.le_refl 32)
    rw [zero]
    simp [gone]
  · have positive : n.toNat ≠ 0 := fun none => zero (UInt32.toNat.inj none)
    have left : (n.toBitVec % 32).toNat = n.toNat := by
      change n.toNat % 32 = n.toNat
      omega
    have right : ((32 - n).toBitVec % 32).toNat = 32 - n.toNat := by
      simp only [UInt32.toBitVec_sub, BitVec.toNat_umod, BitVec.toNat_sub]
      change (2 ^ 32 - n.toNat + 32) % 2 ^ 32 % 32 = 32 - n.toNat
      omega
    rw [left, right]

end Rotations

/-! ## Words that hold an integer modulo `2 ^ 32` -/

section Wraps

def Tracks (word : UInt32) (number : ℤ) : Prop := (word.toNat : ℤ) = number % 2 ^ 32

variable {word other : UInt32} {number more : ℤ}

theorem tracks_self (word : UInt32) : Tracks word word.toNat := by
  have small := word.toNat_lt
  unfold Tracks
  omega

theorem tracks_add (first : Tracks word number) (second : Tracks other more) :
    Tracks (word + other) (number + more) := by
  unfold Tracks at *
  rw [UInt32.toNat_add]
  omega

theorem tracks_sub (first : Tracks word number) (second : Tracks other more) :
    Tracks (word - other) (number - more) := by
  have small := other.toNat_lt
  unfold Tracks at *
  rw [UInt32.toNat_sub]
  omega

theorem tracked_value (tracked : Tracks word number) (nonnegative : 0 ≤ number)
    (small : number < 2 ^ 32) : (word.toNat : ℤ) = number := by
  unfold Tracks at tracked
  omega

/-- A comparison with a bound below the top bit takes negative integers for large ones. -/
theorem tracked_lt_iff (tracked : Tracks word number) (from_below : -2 ^ 31 ≤ number)
    (small : number < 2 ^ 32) {bound : UInt32} (low : bound.toNat ≤ 2 ^ 31) :
    word < bound ↔ 0 ≤ number ∧ number < bound.toNat := by
  unfold Tracks at tracked
  rw [UInt32.lt_iff_toNat_lt]
  omega

theorem tracked_zip {op : UInt32 → UInt32 → UInt32} {opZ : ℤ → ℤ → ℤ}
    (each : ∀ {u v : UInt32} {e f : ℤ}, Tracks u e → Tracks v f → Tracks (op u v) (opZ e f))
    {words others : List UInt32} {numbers mores : List ℤ}
    (first : List.Forall₂ Tracks words numbers) (second : List.Forall₂ Tracks others mores) :
    List.Forall₂ Tracks (List.zipWith op words others) (List.zipWith opZ numbers mores) := by
  induction first generalizing others mores with
  | nil =>
      rw [List.zipWith_nil_left, List.zipWith_nil_left]
      exact List.Forall₂.nil
  | cons head _ induction =>
      cases second with
      | nil => exact List.Forall₂.nil
      | cons other rest => exact List.Forall₂.cons (each head other) (induction rest)

end Wraps

/-! ## Limbs of two alternating widths -/

section Limbs

variable (width : Bool → ℕ)

def value : Bool → List ℤ → ℤ
  | _, [] => 0
  | place, limb :: limbs => limb + 2 ^ width place * value (!place) limbs

@[simp] theorem value_nil (place : Bool) : value width place [] = 0 := rfl

@[simp] theorem value_cons (place : Bool) (limb : ℤ) (limbs : List ℤ) :
    value width place (limb :: limbs) = limb + 2 ^ width place * value width (!place) limbs := rfl

def weight : Bool → ℕ → ℤ
  | _, 0 => 1
  | place, n + 1 => 2 ^ width place * weight (!place) n

theorem value_append_one (place : Bool) (limbs : List ℤ) (last : ℤ) :
    value width place (limbs ++ [last]) =
      value width place limbs + weight width place limbs.length * last := by
  induction limbs generalizing place with
  | nil => simp [weight]
  | cons limb limbs induction =>
      rw [List.cons_append, value_cons, value_cons, induction, List.length_cons, weight]
      ring

theorem value_zip (op : ℤ → ℤ → ℤ) (s t : ℤ) (linear : ∀ x y, op x y = s * x + t * y)
    (place : Bool) {first second : List ℤ} (same : first.length = second.length) :
    value width place (List.zipWith op first second) =
      s * value width place first + t * value width place second := by
  induction first generalizing place second with
  | nil =>
      rw [List.eq_nil_of_length_eq_zero same.symm, List.zipWith_nil_left, value_nil]
      ring
  | cons limb first induction =>
      cases second with
      | nil => cases same
      | cons other second =>
          rw [List.zipWith_cons_cons, value_cons, value_cons, value_cons,
            induction (!place) (Nat.succ.inj same), linear]
          ring

end Limbs

end PbftBlock.Library.Words
