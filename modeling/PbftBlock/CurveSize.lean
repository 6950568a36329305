import Mathlib.GroupTheory.Index
import Mathlib.GroupTheory.Perm.Cycle.Type
import PbftBlock.CurveOrder
import PbftBlock.Library.CubicResidues

/-!
# The number of points of the curve

The curve has `N` points, so that every point but infinity has the order `N`. The
multiples of the base point are `N` of them, and there is no room for three times as many.
Twice as many would bring a point of order two, whose first coordinate is a root of
`x³ + ax + b`; there is none.
-/

namespace PbftBlock.CurveSize

open PbftBlock.Library.JacobianPoints PbftBlock.Library.CubicResidues PbftBlock.CurveAddition
open PbftBlock.CurveOrder

set_option autoImplicit false

/-- The inverse of `x ^ p - x` modulo the cubic. -/
def rootFree : Residue FieldElement where
  c₀ := 0xeb9539fb12a69fa8a00429afc717f1319f0c8d5b6b742939772c4ea8ae886749
  c₁ := 0xbbea3c6e4f9890bc31aef1ce9abbeaf4847d5c84bfa4437849cb29256264e8b1
  c₂ := 0x4eacc0d01f9e2a10d4f0056c0628ef26e06a3759ce9c5557561509c6fc21376f

theorem cubic_ne_zero (x : FieldElement) : x ^ 3 + a * x + b ≠ 0 := by
  apply no_root (fun x => ZMod.pow_card x) (by decide : p < 2 ^ 256) rootFree
  decide +kernel

theorem double_ne_zero {P : CurvePoint} (finite : P ≠ 0) : P + P ≠ 0 := by
  cases P with
  | zero => exact absurd rfl finite
  | some x y on =>
      have ascending : y ≠ sm2P256.negY x y := by
        intro vertical
        have two : (2 : FieldElement) ≠ 0 := by decide
        have flat : y = 0 := by
          rw [WeierstrassCurve.Affine.negY] at vertical
          apply (mul_eq_zero_iff_left two).mp
          linear_combination vertical
        have equation := (nonsingular_iff x y).mp on
        apply cubic_ne_zero x
        rw [flat] at equation
        linear_combination -equation
      rw [WeierstrassCurve.Affine.Point.add_self_of_Y_ne ascending]
      exact WeierstrassCurve.Affine.Point.some_ne_zero _

def half : CurvePoint → Option (FieldElement × Bool)
  | .zero => none
  | .some x y _ => some (x, y.val % 2 = 0)

theorem half_injective : Function.Injective half := by
  intro P Q same
  cases P with
  | zero =>
      cases Q with
      | zero => rfl
      | some x y on => cases same
  | some x y on =>
      cases Q with
      | zero => cases same
      | some x' y' on' =>
          simp only [half, Option.some.injEq, Prod.mk.injEq, decide_eq_decide] at same
          obtain ⟨rfl, parity⟩ := same
          rcases WeierstrassCurve.Affine.Y_eq_of_X_eq on.1 on'.1 rfl with rfl | opposite
          · rfl
          · have negative : y = -y' := by
              rw [opposite, WeierstrassCurve.Affine.negY]
              ring
            -- the two roots of a square add up to the field's odd characteristic
            have zero : y' = 0 := by
              by_contra nonzero
              have sum := ZMod.neg_val y'
              rw [if_neg nonzero, ← negative] at sum
              have small := ZMod.val_lt y'
              have odd : p % 2 = 1 := by decide
              omega
            have same : y = y' := by rw [negative, zero, neg_zero]
            subst same
            rfl

instance : Finite CurvePoint := Finite.of_injective half half_injective

theorem card_points_le : Nat.card CurvePoint ≤ 2 * p + 1 := by
  have bound := Nat.card_le_card_of_injective half half_injective
  have pairs : Nat.card (Option (FieldElement × Bool)) = p * 2 + 1 := by
    rw [Finite.card_option, Nat.card_prod, Nat.card_zmod]
    simp
  omega

theorem card_points : Nat.card CurvePoint = n := by
  have divides : n ∣ Nat.card CurvePoint := by
    rw [← order_base]
    exact addOrderOf_dvd_natCard basePoint
  obtain ⟨index, product⟩ := divides
  have positive : 0 < Nat.card CurvePoint := Nat.card_pos
  have bound := card_points_le
  have few : 2 * p + 1 < n * 3 := by decide
  have single : index = 1 ∨ index = 2 := by
    rw [product] at positive bound
    have low : index ≠ 0 := by
      rintro rfl
      simp at positive
    have high : index < 3 := Nat.lt_of_mul_lt_mul_left (Nat.lt_of_le_of_lt bound few)
    omega
  rcases single with rfl | rfl
  · rw [product, Nat.mul_one]
  · have : Fact (Nat.Prime 2) := ⟨Nat.prime_two⟩
    obtain ⟨P, order⟩ := exists_prime_addOrderOf_dvd_card' 2 ⟨n, by rw [product, Nat.mul_comm]⟩
    have finite : P ≠ 0 := by
      rintro rfl
      rw [addOrderOf_zero] at order
      cases order
    apply absurd _ (double_ne_zero finite)
    rw [← two_nsmul, ← order]
    exact addOrderOf_nsmul_eq_zero P

theorem order_point {P : CurvePoint} (finite : P ≠ 0) : addOrderOf P = n := by
  have divides : addOrderOf P ∣ n := by
    rw [← card_points]
    exact addOrderOf_dvd_natCard P
  rcases (Nat.dvd_prime prime_n).mp divides with one | order
  · exact absurd (AddMonoid.addOrderOf_eq_one_iff.mp one) finite
  · exact order

theorem smul_eq_zero_iff {P : CurvePoint} (finite : P ≠ 0) (k : ℕ) : k • P = 0 ↔ n ∣ k := by
  rw [← order_point finite, addOrderOf_dvd_iff_nsmul_eq_zero]

theorem smul_mod (P : CurvePoint) (k : ℕ) : (k % n) • P = k • P := by
  by_cases finite : P = 0
  · rw [finite, nsmul_zero, nsmul_zero]
  · rw [← order_point finite, mod_addOrderOf_nsmul]

theorem smul_ne_smul {P : CurvePoint} (finite : P ≠ 0) {j k : ℕ} (belowJ : j < n) (belowK : k < n)
    (apart : j ≠ k) : j • P ≠ k • P := by
  intro same
  rw [nsmul_eq_nsmul_iff_modEq, order_point finite] at same
  exact apart (Nat.ModEq.eq_of_lt_of_lt same belowJ belowK)

theorem exists_smul_base (P : CurvePoint) : ∃ k < n, P = k • basePoint := by
  have whole : AddSubgroup.zmultiples basePoint = ⊤ := by
    apply AddSubgroup.eq_top_of_card_eq
    rw [Nat.card_zmultiples, order_base, card_points]
  have member : P ∈ AddSubgroup.zmultiples basePoint := by
    rw [whole]
    exact AddSubgroup.mem_top P
  obtain ⟨k, below, same⟩ := mem_zmultiples_iff_mem_range_addOrderOf.mp member |> Finset.mem_image.mp
  rw [Finset.mem_range, order_base] at below
  exact ⟨k, below, same.symm⟩

end PbftBlock.CurveSize
