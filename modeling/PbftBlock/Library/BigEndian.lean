import Mathlib.Data.List.Induction
import Mathlib.Tactic.Ring
import Mathlib.Tactic.SplitIfs

/-!
# Big-endian byte strings

Numbers as byte strings with the most significant byte first, in a given width,
and back.
-/

namespace PbftBlock.Library.BigEndian

set_option autoImplicit false

/-- The lowest `width` bytes of a number. -/
def toBytes : Nat → Nat → List UInt8
  | 0, _ => []
  | width + 1, number => UInt8.ofNat (number / 256 ^ width) :: toBytes width number

def ofBytes (bytes : List UInt8) : Nat :=
  bytes.foldl (fun number byte => number * 256 + byte.toNat) 0

theorem byte_of_small {n : Nat} (small : n < 128) :
    (UInt8.ofNat n).toNat = n ∧ UInt8.ofNat n < 0x80 := by
  have value : (UInt8.ofNat n).toNat = n := by
    rw [UInt8.toNat_ofNat']
    omega
  refine ⟨value, ?_⟩
  rw [UInt8.lt_iff_toNat_lt, value]
  exact small

@[simp] theorem to_bytes_length (width number : Nat) : (toBytes width number).length = width := by
  induction width with
  | zero => rfl
  | succ width induction => simp [toBytes, induction]

theorem of_bytes_from (start : Nat) (bytes : List UInt8) :
    bytes.foldl (fun number byte => number * 256 + byte.toNat) start =
      start * 256 ^ bytes.length + ofBytes bytes := by
  unfold ofBytes
  induction bytes generalizing start with
  | nil => simp
  | cons byte bytes induction =>
      rw [List.foldl_cons, List.foldl_cons, induction, induction (0 * 256 + byte.toNat),
        List.length_cons]
      ring

theorem of_bytes_cons (byte : UInt8) (bytes : List UInt8) :
    ofBytes (byte :: bytes) = byte.toNat * 256 ^ bytes.length + ofBytes bytes := by
  have step := of_bytes_from byte.toNat bytes
  rw [ofBytes, List.foldl_cons, Nat.zero_mul, Nat.zero_add]
  exact step

theorem of_bytes_to_bytes_mod (width number : Nat) :
    ofBytes (toBytes width number) = number % 256 ^ width := by
  induction width with
  | zero => simp [toBytes, ofBytes, Nat.mod_one]
  | succ width induction =>
      have byte : (UInt8.ofNat (number / 256 ^ width)).toNat = number / 256 ^ width % 256 :=
        UInt8.toNat_ofNat'
      have split : number % 256 ^ (width + 1) =
          number % 256 ^ width + 256 ^ width * (number / 256 ^ width % 256) := Nat.mod_mul
      rw [toBytes, of_bytes_cons, to_bytes_length, induction, byte, split]
      ring

theorem of_bytes_to_bytes {width number : Nat} (fits : number < 256 ^ width) :
    ofBytes (toBytes width number) = number := by
  rw [of_bytes_to_bytes_mod, Nat.mod_eq_of_lt fits]

theorem to_bytes_leading {width number : Nat} (needed : 256 ^ width ≤ number)
    (fits : number < 256 ^ (width + 1)) : UInt8.ofNat (number / 256 ^ width) ≠ 0 := by
  have positive : 0 < 256 ^ width := Nat.pow_pos (by decide)
  have some : 1 ≤ number / 256 ^ width := (Nat.one_le_div_iff positive).mpr needed
  have small : number / 256 ^ width < 256 := by
    rw [Nat.div_lt_iff_lt_mul positive, Nat.mul_comm, ← Nat.pow_succ]
    exact fits
  intro zero
  have value : (UInt8.ofNat (number / 256 ^ width)).toNat = number / 256 ^ width % 256 :=
    UInt8.toNat_ofNat'
  rw [zero, Nat.mod_eq_of_lt small] at value
  have none : 0 = number / 256 ^ width := value
  omega

/-- The bytes of a number without leading zeros; none for zero. -/
def minimal (number : Nat) : List UInt8 :=
  if number = 0 then [] else minimal (number / 256) ++ [UInt8.ofNat number]
termination_by number
decreasing_by omega

theorem to_bytes_add (high low number : Nat) :
    toBytes (high + low) number = toBytes high (number / 256 ^ low) ++ toBytes low number := by
  induction high with
  | zero => rw [Nat.zero_add, toBytes, List.nil_append]
  | succ high induction =>
      rw [Nat.add_right_comm, toBytes, induction, toBytes, List.cons_append,
        Nat.div_div_eq_div_mul, ← Nat.pow_add, Nat.add_comm low]

theorem to_bytes_succ (width number : Nat) :
    toBytes (width + 1) number = toBytes width (number / 256) ++ [UInt8.ofNat number] := by
  rw [to_bytes_add, Nat.pow_one]
  simp [toBytes]

theorem to_bytes_zero (width : Nat) : toBytes width 0 = List.replicate width 0 := by
  induction width with
  | zero => rfl
  | succ width induction =>
      rw [toBytes, induction, Nat.zero_div, List.replicate_succ]
      rfl

theorem pad_minimal {width number : Nat} (fits : number < 256 ^ width) :
    (minimal number).length ≤ width ∧
      List.replicate (width - (minimal number).length) 0 ++ minimal number =
        toBytes width number := by
  induction width generalizing number with
  | zero =>
      have zero : number = 0 := by simpa using fits
      rw [zero, minimal]
      simp [toBytes]
  | succ width induction =>
      by_cases zero : number = 0
      · rw [zero, minimal, if_pos rfl, to_bytes_zero]
        simp
      · have smaller : number / 256 < 256 ^ width := by
          rw [Nat.div_lt_iff_lt_mul (by decide), ← Nat.pow_succ]
          exact fits
        obtain ⟨short, bytes⟩ := induction smaller
        rw [minimal, if_neg zero, List.length_append, List.length_singleton, to_bytes_succ, ← bytes]
        refine ⟨by omega, ?_⟩
        rw [← List.append_assoc, Nat.add_sub_add_right]

theorem minimal_byte {number : Nat} (positive : 0 < number) (small : number < 256) :
    minimal number = [UInt8.ofNat number] := by
  have none : number / 256 = 0 := Nat.div_eq_of_lt small
  rw [minimal, if_neg (by omega), none, minimal, if_pos rfl, List.nil_append]

theorem of_bytes_minimal (number : Nat) : ofBytes (minimal number) = number := by
  induction number using Nat.strong_induction_on with
  | _ number induction =>
      rw [minimal]
      split_ifs with zero
      · rw [zero]
        rfl
      · have byte : (UInt8.ofNat number).toNat = number % 256 := UInt8.toNat_ofNat'
        have high := induction (number / 256) (by omega)
        rw [ofBytes, List.foldl_append]
        change ofBytes (minimal (number / 256)) * 256 + (UInt8.ofNat number).toNat = number
        rw [high, byte]
        omega

theorem of_bytes_lt (bytes : List UInt8) : ofBytes bytes < 256 ^ bytes.length := by
  induction bytes with
  | nil => exact Nat.one_pos
  | cons byte bytes induction =>
      have small := byte.toNat_lt
      rw [of_bytes_cons, List.length_cons, Nat.pow_succ]
      calc byte.toNat * 256 ^ bytes.length + ofBytes bytes
          < byte.toNat * 256 ^ bytes.length + 256 ^ bytes.length :=
            Nat.add_lt_add_left induction _
        _ = (byte.toNat + 1) * 256 ^ bytes.length := by ring
        _ ≤ 256 * 256 ^ bytes.length := Nat.mul_le_mul_right _ (by omega)
        _ = 256 ^ bytes.length * 256 := Nat.mul_comm _ _

theorem minimal_length_le_iff (width number : Nat) :
    (minimal number).length ≤ width ↔ number < 256 ^ width := by
  constructor
  · intro short
    have bound := of_bytes_lt (minimal number)
    rw [of_bytes_minimal] at bound
    exact Nat.lt_of_lt_of_le bound (Nat.pow_le_pow_right (by decide) short)
  · intro fits
    exact (pad_minimal fits).1

theorem minimal_leading {number : Nat} (nonzero : number ≠ 0) :
    ∃ first more, minimal number = first :: more ∧ first ≠ 0 := by
  induction number using Nat.strong_induction_on with
  | _ number induction =>
      by_cases small : number < 256
      · refine ⟨UInt8.ofNat number, [], minimal_byte (by omega) small, ?_⟩
        intro zero
        have byte : (UInt8.ofNat number).toNat = number % 256 := UInt8.toNat_ofNat'
        rw [zero, Nat.mod_eq_of_lt small] at byte
        exact nonzero byte.symm
      · obtain ⟨first, more, bytes, leading⟩ := induction (number / 256) (by omega) (by omega)
        refine ⟨first, more ++ [UInt8.ofNat number], ?_, leading⟩
        rw [minimal, if_neg nonzero, bytes, List.cons_append]

theorem of_bytes_append_byte (bytes : List UInt8) (byte : UInt8) :
    ofBytes (bytes ++ [byte]) = ofBytes bytes * 256 + byte.toNat := by
  rw [ofBytes, List.foldl_append]
  rfl

theorem append_byte_split (number : Nat) (byte : UInt8) :
    (number * 256 + byte.toNat) / 256 = number ∧ UInt8.ofNat (number * 256 + byte.toNat) = byte := by
  have small := byte.toNat_lt
  refine ⟨by omega, ?_⟩
  apply UInt8.toNat.inj
  rw [UInt8.toNat_ofNat']
  omega

theorem to_bytes_of_bytes (bytes : List UInt8) : toBytes bytes.length (ofBytes bytes) = bytes := by
  induction bytes using List.reverseRecOn with
  | nil => rfl
  | append_singleton bytes byte induction =>
      obtain ⟨quotient, last⟩ := append_byte_split (ofBytes bytes) byte
      rw [List.length_append, List.length_singleton, of_bytes_append_byte, to_bytes_succ,
        quotient, induction, last]

theorem minimal_of_bytes {bytes : List UInt8} (leading : ∀ more, bytes ≠ 0 :: more) :
    minimal (ofBytes bytes) = bytes := by
  induction bytes using List.reverseRecOn with
  | nil => rw [ofBytes, List.foldl_nil, minimal, if_pos rfl]
  | append_singleton bytes byte induction =>
      obtain ⟨quotient, last⟩ := append_byte_split (ofBytes bytes) byte
      have inner : minimal (ofBytes bytes) = bytes := by
        apply induction
        intro more zero
        rw [zero] at leading
        exact leading (more ++ [byte]) rfl
      have nonzero : ofBytes bytes * 256 + byte.toNat ≠ 0 := by
        intro zero
        have high : ofBytes bytes = 0 := by omega
        have low : byte = 0 := UInt8.toNat.inj (show byte.toNat = 0 by omega)
        rw [high, minimal, if_pos rfl] at inner
        rw [← inner, low] at leading
        exact leading [] rfl
      rw [of_bytes_append_byte, minimal, if_neg nonzero, quotient, inner, last]

end PbftBlock.Library.BigEndian
