import Mathlib.AlgebraicGeometry.EllipticCurve.Affine.Point
import Mathlib.Tactic.FieldSimp
import Mathlib.Tactic.LinearCombination

/-!
# Points of a curve in Jacobian coordinates

A point of `y² = x³ + ax + b` is represented by a triple `(x z², y z³, z)` with `z` not
zero, and the point at infinity by any triple with `z` zero. Sums and doubles of points
are represented by polynomials in the triples.
-/

namespace PbftBlock.Library.JacobianPoints

open WeierstrassCurve.Affine

set_option autoImplicit false

variable {F : Type} [Field F]

abbrev curve (a b : F) : WeierstrassCurve.Affine F := ⟨0, 0, 0, a, b⟩

@[ext] structure Jacobian (F : Type) where
  x : F
  y : F
  z : F
deriving DecidableEq

inductive Represents (a b : F) : Jacobian F → (curve a b).Point → Prop where
  | infinity {triple : Jacobian F} (zero : triple.z = 0) : Represents a b triple 0
  | affine {triple : Jacobian F} {x y : F} (on : (curve a b).Nonsingular x y)
      (nonzero : triple.z ≠ 0) (atX : triple.x = x * triple.z ^ 2)
      (atY : triple.y = y * triple.z ^ 3) : Represents a b triple (.some x y on)

variable {a b : F} {triple first second : Jacobian F} {P Q : (curve a b).Point}

theorem represents_zero_iff (represents : Represents a b triple P) : triple.z = 0 ↔ P = 0 := by
  cases represents with
  | infinity zero => exact iff_of_true zero rfl
  | affine on nonzero atX atY => exact iff_of_false nonzero (Point.some_ne_zero on)

theorem represents_unique (one : Represents a b triple P) (other : Represents a b triple Q) :
    P = Q := by
  cases one with
  | infinity zero => exact ((represents_zero_iff other).mp zero).symm
  | affine on nonzero atX atY =>
      cases other with
      | infinity zero => exact absurd zero nonzero
      | affine on' _ atX' atY' =>
          have sameX := mul_right_cancel₀ (pow_ne_zero 2 nonzero) (atX.symm.trans atX')
          have sameY := mul_right_cancel₀ (pow_ne_zero 3 nonzero) (atY.symm.trans atY')
          subst sameX sameY
          rfl

theorem represents_scale (represents : Represents a b triple P) {u : F} (factor : u ≠ 0) :
    Represents a b ⟨triple.x * u ^ 2, triple.y * u ^ 3, triple.z * u⟩ P := by
  cases represents with
  | infinity zero =>
      apply Represents.infinity
      rw [zero, zero_mul]
  | affine on nonzero atX atY =>
      apply Represents.affine on (mul_ne_zero nonzero factor)
      · rw [atX]
        ring
      · rw [atY]
        ring

/-- The affine coordinates, where the origin stands for infinity. -/
def coordinates : (curve a b).Point → F × F
  | .zero => (0, 0)
  | .some x y _ => (x, y)

/-- Division by the powers of `z`; zero has the inverse zero. -/
theorem represents_coordinates (represents : Represents a b triple P) :
    (triple.x * triple.z⁻¹ ^ 2, triple.y * triple.z⁻¹ ^ 3) = coordinates P := by
  cases represents with
  | infinity zero =>
      have origin : coordinates (0 : (curve a b).Point) = (0, 0) := rfl
      rw [zero, inv_zero, origin]
      simp
  | affine on nonzero atX atY =>
      apply Prod.ext
      · change triple.x * triple.z⁻¹ ^ 2 = _
        rw [atX]
        field_simp
        rfl
      · change triple.y * triple.z⁻¹ ^ 3 = _
        rw [atY]
        field_simp
        rfl

theorem cross_eq_iff {x₁ x₂ u v : F} (nonzero : u ≠ 0) (nonzero' : v ≠ 0) (n : ℕ) :
    x₁ * u ^ n * v ^ n = x₂ * v ^ n * u ^ n ↔ x₁ = x₂ := by
  rw [mul_assoc, mul_assoc, mul_comm (v ^ n)]
  exact mul_left_inj' (mul_ne_zero (pow_ne_zero n nonzero) (pow_ne_zero n nonzero'))

section Sums

variable [DecidableEq F]

/-- The chord through points with different first coordinates. -/
theorem represents_sum {x₁ y₁ x₂ y₂ : F} {on : (curve a b).Nonsingular x₁ y₁}
    {on' : (curve a b).Nonsingular x₂ y₂} (apart : x₁ ≠ x₂) {w : F} (nonzero : w ≠ 0)
    (atZ : triple.z = (x₂ - x₁) * w ^ 3)
    (atX : triple.x = ((y₂ - y₁) ^ 2 - (x₁ + x₂) * (x₂ - x₁) ^ 2) * w ^ 6)
    (atY : triple.y = ((y₂ - y₁) * (x₁ * (x₂ - x₁) ^ 2 -
      ((y₂ - y₁) ^ 2 - (x₁ + x₂) * (x₂ - x₁) ^ 2)) - y₁ * (x₂ - x₁) ^ 3) * w ^ 9) :
    Represents a b triple (.some x₁ y₁ on + .some x₂ y₂ on') := by
  have difference : x₁ - x₂ ≠ 0 := sub_ne_zero.mpr apart
  rw [Point.add_of_X_ne apart]
  apply Represents.affine
  · rw [atZ]
    exact mul_ne_zero (sub_ne_zero.mpr apart.symm) (pow_ne_zero 3 nonzero)
  · rw [atX, atZ, addX, slope_of_X_ne apart]
    field_simp
    ring
  · rw [atY, atZ, addY, negY, negAddY, addX, slope_of_X_ne apart]
    field_simp
    ring

/-- The tangent, also where it is vertical. -/
theorem represents_double {double : Jacobian F} (represents : Represents a b triple P)
    (atZ : double.z = 2 * triple.y * triple.z)
    (atX : double.x = (3 * triple.x ^ 2 + a * triple.z ^ 4) ^ 2 - 8 * triple.x * triple.y ^ 2)
    (atY : double.y = (3 * triple.x ^ 2 + a * triple.z ^ 4) *
      (4 * triple.x * triple.y ^ 2 - double.x) - 8 * triple.y ^ 4) :
    Represents a b double (P + P) := by
  cases represents with
  | infinity zero =>
      rw [add_zero]
      apply Represents.infinity
      rw [atZ, zero, mul_zero]
  | @affine x y on nonzero pointX pointY =>
      by_cases vertical : y = (curve a b).negY x y
      · have twice : 2 * y = 0 := by
          rw [negY] at vertical
          linear_combination vertical
        rw [Point.add_self_of_Y_eq vertical]
        apply Represents.infinity
        rw [atZ, pointY]
        linear_combination triple.z ^ 4 * twice
      · have twice : 2 * y ≠ 0 := by
          intro zero
          apply vertical
          rw [negY]
          linear_combination zero
        have slope : (curve a b).slope x x y y = (3 * x ^ 2 + a) / (2 * y) := by
          rw [slope_of_Y_ne rfl vertical, negY]
          congr 1
          · ring
          · ring
        obtain ⟨two, ordinate⟩ := mul_ne_zero_iff.mp twice
        rw [Point.add_self_of_Y_ne vertical]
        apply Represents.affine
        · rw [atZ, pointY]
          intro zero
          have product : 2 * y * triple.z ^ 4 = 0 := by linear_combination zero
          exact mul_ne_zero twice (pow_ne_zero 4 nonzero) product
        · rw [atX, atZ, pointX, pointY, addX, slope]
          field_simp
          ring
        · rw [atY, atX, atZ, pointX, pointY, addY, negY, negAddY, addX, slope]
          field_simp
          ring

end Sums

end PbftBlock.Library.JacobianPoints
