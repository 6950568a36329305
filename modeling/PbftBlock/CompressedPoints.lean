import PbftBlock.CurveOrder

/-!
# Compressed points

`Compress` and `Decompress` of the package `sm2`, over exact arithmetic in the field. The
compressed form has the first coordinate and one bit of the second. `Decompress` inverts
`Compress` on every point but infinity, whose coordinates are both zero: their compressed form
is that of a point of the curve.
-/

namespace PbftBlock.CompressedPoints

open PbftBlock.Library.BigEndian PbftBlock.Library.JacobianPoints PbftBlock.Library.Primality
open PbftBlock.CurveAddition PbftBlock.CurveOrder
open PbftBlock.Sm2 (Point CryptoError pad32 pad32_minimal)

set_option autoImplicit false

def getLastBit (number : ℕ) : UInt64 := if number % 2 = 0 then 0 else 1

def compress (point : Point) : List UInt8 :=
  let buf := pad32 (minimal point.x)
  if getLastBit point.y = 0 then 2 :: buf else 3 :: buf

/-- `ModSqrt` for the modulus `p`, which is three modulo four: nil unless the number is a
square. -/
def modSqrt (number : ℕ) : Option ℕ :=
  let root := powMod p 256 number ((p + 1) / 4)
  if root * root % p = number % p then some root else none

def ySquare (x : ℕ) : ℕ :=
  let xx : FieldElement := x
  (xx ^ 2 * xx + (a : FieldElement) * xx + (b : FieldElement)).val

def deref : Option ℕ → Except CryptoError ℕ
  | none => .error .panicked
  | some number => .ok number

def decompress : List UInt8 → Except CryptoError Point
  | [] => .error .panicked
  | first :: rest => do
      let x := ofBytes rest
      let y ← deref (modSqrt (ySquare x))
      return ⟨x, if getLastBit y ≠ first.toUInt64 - 2 then p - y else y⟩

theorem mod_sqrt_square (y : FieldElement) :
    ∃ root, modSqrt (y ^ 2).val = some root ∧ (root = y.val ∨ root = (-y).val) := by
  have power := pow_mod_eq p 256 (y ^ 2).val ((p + 1) / 4) (by decide)
  have small : powMod p 256 (y ^ 2).val ((p + 1) / 4) < p := by
    rw [power]
    exact Nat.mod_lt _ prime_p.pos
  rw [modSqrt]
  generalize powMod p 256 (y ^ 2).val ((p + 1) / 4) = root at *
  have value : (root : FieldElement) = (y ^ 2) ^ ((p + 1) / 4) := by
    rw [power, ZMod.natCast_mod, Nat.cast_pow, ZMod.natCast_zmod_val]
  have square : (root : FieldElement) * root = y * y := by
    have exponent : 2 * ((p + 1) / 4 + (p + 1) / 4) = p + 1 := by decide
    rw [value, ← pow_add, ← pow_mul, exponent, pow_succ, ZMod.pow_card]
  have test : root * root % p = (y ^ 2).val % p := by
    rw [← ZMod.natCast_eq_natCast_iff', Nat.cast_mul, ZMod.natCast_zmod_val, square, pow_two]
  refine ⟨root, if_pos test, ?_⟩
  rw [← ZMod.val_natCast_of_lt small]
  exact (mul_self_eq_mul_self_iff.mp square).imp (congrArg _) (congrArg _)

def signByte (y : ℕ) : UInt8 := if y % 2 = 0 then 2 else 3

theorem compress_eq {point : Point} (fits : point.x < 256 ^ 32) :
    compress point = signByte point.y :: toBytes 32 point.x := by
  rw [compress, getLastBit, signByte, pad32_minimal fits]
  split <;> rfl

theorem sign_byte_bit (y : ℕ) : (signByte y).toUInt64 - 2 = getLastBit y := by
  rw [signByte, getLastBit]
  split <;> rfl

theorem last_bit_eq_iff (y z : ℕ) : getLastBit y = getLastBit z ↔ y % 2 = z % 2 := by
  rw [getLastBit, getLastBit]
  split <;> split <;> simp <;> omega

theorem affine_fits (P : CurvePoint) : (affine P).x < 256 ^ 32 := by
  have small : (affine P).x < p := ZMod.val_lt (coordinates P).1
  exact Nat.lt_trans small (by decide)

theorem compress_length (P : CurvePoint) : (compress (affine P)).length = 33 := by
  rw [compress_eq (affine_fits P), List.length_cons, to_bytes_length]

theorem root_with_bit {y : FieldElement} {root : ℕ} (either : root = y.val ∨ root = (-y).val) :
    (if getLastBit root ≠ getLastBit y.val then p - root else root) = y.val := by
  have small := ZMod.val_lt y
  rcases either with rfl | rfl
  · exact if_neg (not_not.mpr rfl)
  · by_cases zero : y = 0
    · rw [zero, neg_zero, if_neg (not_not.mpr rfl)]
    · have nonzero : y.val ≠ 0 := mt (ZMod.val_eq_zero y).mp zero
      have odd : p % 2 = 1 := by decide
      have other : getLastBit (-y).val ≠ getLastBit y.val := by
        rw [Ne, last_bit_eq_iff, ZMod.neg_val, if_neg zero]
        omega
      rw [if_pos other, ZMod.neg_val, if_neg zero]
      omega

theorem decompress_found {first : UInt8} {rest : List UInt8} {root : ℕ}
    (found : modSqrt (ySquare (ofBytes rest)) = some root) :
    decompress (first :: rest) = .ok ⟨ofBytes rest,
      if getLastBit root ≠ first.toUInt64 - 2 then p - root else root⟩ := by
  rw [decompress, found, deref]
  rfl

/-- `Decompress` inverts `Compress` on every point but infinity. -/
theorem decompress_compress {P : CurvePoint} (finite : P ≠ 0) :
    decompress (compress (affine P)) = .ok (affine P) := by
  have fits := affine_fits P
  cases P with
  | zero => exact absurd rfl finite
  | some x y on =>
      obtain ⟨root, found, either⟩ := mod_sqrt_square y
      have number : ofBytes (toBytes 32 x.val) = x.val := of_bytes_to_bytes fits
      have square : (y ^ 2).val = ySquare (ofBytes (toBytes 32 x.val)) := by
        rw [number, ySquare, ZMod.natCast_zmod_val, (nonsingular_iff x y).mp on, pow_succ]
      rw [square] at found
      rw [compress_eq fits]
      change decompress (signByte y.val :: toBytes 32 x.val) = .ok ⟨x.val, y.val⟩
      rw [decompress_found found, number, sign_byte_bit, root_with_bit either]

theorem compress_injective {P Q : CurvePoint} (finite : P ≠ 0) (finite' : Q ≠ 0)
    (same : compress (affine P) = compress (affine Q)) : P = Q := by
  apply affine_injective
  have opened := decompress_compress finite
  rw [same, decompress_compress finite'] at opened
  exact (Except.ok.inj opened).symm

/-- The second coordinate that `Decompress` finds where the first one is zero. -/
def zeroRoot : ℕ := 0xFD4511E81736A60F07E88A83D6CF5A167FAE6D1A9C9330E76E232E00F5CDC154

theorem decompress_infinity : decompress (compress (affine 0)) = .ok ⟨0, zeroRoot⟩ := by
  have origin : compress (affine 0) = 2 :: toBytes 32 0 := compress_eq (affine_fits 0)
  rw [origin, to_bytes_zero]
  decide +kernel

end PbftBlock.CompressedPoints
