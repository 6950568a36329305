import Mathlib.FieldTheory.Finite.Basic
import Mathlib.Tactic.NormNum.Prime
import PbftBlock.Library.JacobianPoints
import PbftBlock.Library.Primality
import PbftBlock.Sm2

/-!
# Addition on the curve SM2-P-256

The functions `Add` and `Double` of the curve, over exact arithmetic in the field: a field
element is the number that `sm2P256ToBig` gives for its limbs. They are compared with the
group of the points of `y² = x³ + ax + b`.
-/

namespace PbftBlock.CurveAddition

open PbftBlock.Library.JacobianPoints PbftBlock.Library.Primality
open PbftBlock.Sm2 (Point)

set_option autoImplicit false

def p : ℕ := 0xFFFFFFFEFFFFFFFFFFFFFFFFFFFFFFFFFFFFFFFF00000000FFFFFFFFFFFFFFFF

def rInverse : ℕ := 0x7ffffffd80000002fffffffe000000017ffffffe800000037ffffffc80000002

def a : ℕ := 0xFFFFFFFEFFFFFFFFFFFFFFFFFFFFFFFFFFFFFFFF00000000FFFFFFFFFFFFFFFC

def b : ℕ := 0x28E9FA9E9D9F5E344D5A9E4BCF6509A7F39789F515AB8F92DDBCBD414D940E93

def gx : ℕ := 0x32C4AE2C1F1981195F9904466A39C9948FE30BBFF2660BE1715A4589334C74C7

def gy : ℕ := 0xBC3736A2F4F6779C59BDCEE36B692153D0A9877CC62A474002DF32E52139F0A0

abbrev FieldElement := ZMod p

/-- The number of nine limbs of 29 and 28 bits by turns, times `2 ^ -257`. -/
def toBig (limbs : List ℕ) : ℕ :=
  let r := (List.range 8).foldr
    (fun i r => r * 2 ^ (if i % 2 = 0 then 29 else 28) + limbs.getD i 0) (limbs.getD 8 0)
  r * rInverse % p

def factor : List (List ℕ) :=
  [[0x0, 0x0, 0x0, 0x0, 0x0, 0x0, 0x0, 0x0, 0x0],
   [0x2, 0x0, 0x1FFFFF00, 0x7FF, 0x0, 0x0, 0x0, 0x2000000, 0x0],
   [0x4, 0x0, 0x1FFFFE00, 0xFFF, 0x0, 0x0, 0x0, 0x4000000, 0x0],
   [0x6, 0x0, 0x1FFFFD00, 0x17FF, 0x0, 0x0, 0x0, 0x6000000, 0x0],
   [0x8, 0x0, 0x1FFFFC00, 0x1FFF, 0x0, 0x0, 0x0, 0x8000000, 0x0],
   [0xA, 0x0, 0x1FFFFB00, 0x27FF, 0x0, 0x0, 0x0, 0xA000000, 0x0],
   [0xC, 0x0, 0x1FFFFA00, 0x2FFF, 0x0, 0x0, 0x0, 0xC000000, 0x0],
   [0xE, 0x0, 0x1FFFF900, 0x37FF, 0x0, 0x0, 0x0, 0xE000000, 0x0],
   [0x10, 0x0, 0x1FFFF800, 0x3FFF, 0x0, 0x0, 0x0, 0x0, 0x01]]

def scalar (b : FieldElement) (k : ℕ) : FieldElement := b * (toBig (factor.getD k []) : ℕ)

def zForAffine (point : Point) : ℕ := if point.x ≠ 0 ∨ point.y ≠ 0 then 1 else 0

def fromBig (point : Point) : Jacobian FieldElement :=
  ⟨point.x, point.y, zForAffine point⟩

/-- `ModInverse` leaves zero as it is, and so does the inverse of the field. -/
def toAffine (triple : Jacobian FieldElement) : Point :=
  let zInv := triple.z⁻¹
  let zInvSq := zInv ^ 2
  ⟨(triple.x * zInvSq).val, (triple.y * (zInv * zInvSq)).val⟩

/-- The coordinates are read before they are written, so that the result may replace the
argument. -/
def pointDouble (triple : Jacobian FieldElement) : Jacobian FieldElement :=
  let x2 := triple.x ^ 2
  let y2 := triple.y ^ 2
  let z2 := triple.z ^ 2
  let z4 := triple.z ^ 2 * triple.z * triple.z
  let y4 := scalar (triple.y ^ 2 * triple.y * triple.y) 8
  let s := scalar (triple.x * y2) 4
  let az4 := (a : FieldElement) * z4
  let m := scalar x2 3 + az4
  let x3 := m ^ 2 - s - s
  ⟨x3, (s - x3) * m - y4, (triple.y + triple.z) ^ 2 - z2 - y2⟩

/-- What the nine pointers of `sm2P256PointAdd` hold when it returns. -/
structure Added where
  first : Jacobian FieldElement
  second : Jacobian FieldElement
  sum : Jacobian FieldElement
deriving DecidableEq

def pointAdd (first second : Jacobian FieldElement) : Added :=
  if first.z = 0 then ⟨first, second, second⟩
  else if second.z = 0 then ⟨first, second, first⟩
  else
    let z12 := first.z ^ 2
    let z22 := second.z ^ 2
    let z13 := z12 * first.z
    let z23 := z22 * second.z
    let u1 := first.x * z22
    let u2 := second.x * z12
    let s1 := first.y * z23
    let s2 := second.y * z13
    -- equal points: the double replaces the first point, and the function goes on
    let first := if u1 = u2 ∧ s1 = s2 then pointDouble first else first
    let h := u2 - u1
    let r := s2 - s1
    let h2 := h ^ 2
    let x3 := r ^ 2 - h2 * h - scalar (u1 * h2) 2
    let y3 := r * (u1 * h2 - x3) - h2 * h * s1
    ⟨first, second, ⟨x3, y3, first.z * second.z * h⟩⟩

def add (first second : Point) : Point :=
  toAffine (pointAdd (fromBig first) (fromBig second)).sum

def double (point : Point) : Point := toAffine (pointDouble (fromBig point))

def isOnCurve (point : Point) : Bool :=
  let x : FieldElement := point.x
  let y : FieldElement := point.y
  x ^ 2 * x + (a : FieldElement) * x + (b : FieldElement) = y ^ 2

/-!
## The field and the curve
-/

/-- The primes below ten million that divide the numbers below the certified ones. -/
def smallPrimes : List ℕ :=
  [2, 3, 7, 11, 13, 43, 61, 337, 367, 769, 823, 1213, 2473, 5303, 5711, 30223, 34511, 71209,
    179429, 363761, 6158099, 8214737]

def fieldCertificate : Certificate where
  number := p
  bits := 256
  root := 13
  factors := [2, 43, 30223, 348253387243, 4641351449027, 417514796639753,
    66013261729388519804782124120027]

def certificates : List Certificate :=
  [⟨3017783777, 32, 3, [2, 2, 2, 2, 2, 7, 7, 337, 5711]⟩,
    ⟨348253387243, 39, 3, [2, 3, 61, 5303, 179429]⟩,
    ⟨4641351449027, 43, 2, [2, 769, 3017783777]⟩,
    ⟨417514796639753, 49, 3, [2, 2, 2, 7, 367, 2473, 8214737]⟩,
    ⟨4773264379806847, 53, 3, [2, 3, 7, 11, 823, 34511, 363761]⟩,
    ⟨66013261729388519804782124120027, 106, 2, [2, 13, 1213, 71209, 6158099, 4773264379806847]⟩,
    fieldCertificate]

theorem prime_p : p.Prime := by
  have small : ∀ q ∈ smallPrimes, q.Prime := by norm_num [smallPrimes]
  have passed : certified smallPrimes certificates = true := by decide +kernel
  have member : fieldCertificate ∈ certificates := List.mem_of_getLast? rfl
  exact certified_prime small passed fieldCertificate member

instance : Fact p.Prime := ⟨prime_p⟩

abbrev sm2P256 := curve (a : FieldElement) (b : FieldElement)

abbrev CurvePoint := sm2P256.Point

abbrev Holds (triple : Jacobian FieldElement) (P : CurvePoint) : Prop :=
  Represents (a : FieldElement) (b : FieldElement) triple P

theorem discriminant_ne_zero : sm2P256.Δ ≠ 0 := by
  intro zero
  have multiple : ((64 * a ^ 3 + 432 * b ^ 2 : ℕ) : FieldElement) = 0 := by
    simp only [WeierstrassCurve.Δ, WeierstrassCurve.b₂, WeierstrassCurve.b₄,
      WeierstrassCurve.b₆, WeierstrassCurve.b₈] at zero
    push_cast
    linear_combination -zero
  rw [ZMod.natCast_eq_zero_iff] at multiple
  revert multiple
  decide

theorem b_ne_zero : (b : FieldElement) ≠ 0 := by
  rw [Ne, ZMod.natCast_eq_zero_iff]
  decide

theorem nonsingular_iff (x y : FieldElement) :
    sm2P256.Nonsingular x y ↔ y ^ 2 = x ^ 3 + a * x + b := by
  rw [← WeierstrassCurve.Affine.equation_iff_nonsingular_of_Δ_ne_zero discriminant_ne_zero,
    WeierstrassCurve.Affine.equation_iff]
  simp

def affine (P : CurvePoint) : Point := ⟨(coordinates P).1.val, (coordinates P).2.val⟩

/-- The origin is not on the curve, so it can stand for infinity. -/
theorem on_curve_nonzero {x y : FieldElement}
    (on : sm2P256.Nonsingular x y) :
    x.val ≠ 0 ∨ y.val ≠ 0 := by
  rw [nonsingular_iff] at on
  rw [← not_and_or, ZMod.val_eq_zero, ZMod.val_eq_zero]
  rintro ⟨rfl, rfl⟩
  apply b_ne_zero
  linear_combination -on

/-- `IsOnCurve` accepts the affine forms of the points other than infinity. -/
theorem is_on_curve_iff {point : Point} (reducedX : point.x < p) (reducedY : point.y < p) :
    isOnCurve point = true ↔ ∃ P : CurvePoint, P ≠ 0 ∧ affine P = point := by
  rw [isOnCurve, decide_eq_true_eq]
  constructor
  · intro equation
    have on := (nonsingular_iff point.x point.y).mpr (by linear_combination -equation)
    refine ⟨.some _ _ on, WeierstrassCurve.Affine.Point.some_ne_zero on, ?_⟩
    simp only [affine, coordinates, ZMod.val_natCast_of_lt reducedX,
      ZMod.val_natCast_of_lt reducedY]
  · rintro ⟨P, nonzero, rfl⟩
    cases P with
    | zero => exact absurd rfl nonzero
    | some x y on =>
        simp only [affine, coordinates, ZMod.natCast_zmod_val]
        linear_combination -(nonsingular_iff x y).mp on

theorem affine_ne_origin {P : CurvePoint} (finite : P ≠ 0) : affine P ≠ ⟨0, 0⟩ := by
  cases P with
  | zero => exact absurd rfl finite
  | some x y on =>
      intro origin
      rw [affine, Point.mk.injEq] at origin
      exact (on_curve_nonzero on).elim (absurd origin.1) (absurd origin.2)

theorem from_big_holds (P : CurvePoint) : Holds (fromBig (affine P)) P := by
  cases P with
  | zero =>
      apply Represents.infinity
      simp [fromBig, affine, coordinates, zForAffine]
  | some x y on =>
      have one : zForAffine ⟨x.val, y.val⟩ = 1 := if_pos (on_curve_nonzero on)
      apply Represents.affine on
      · simp [fromBig, affine, coordinates, one]
      · simp [fromBig, affine, coordinates, one]
      · simp [fromBig, affine, coordinates, one]

theorem to_affine_eq {triple : Jacobian FieldElement} {P : CurvePoint} (holds : Holds triple P) :
    toAffine triple = affine P := by
  rw [affine, ← represents_coordinates holds, toAffine, ← pow_succ']

/-!
## Doubling and addition
-/

theorem factor_eq : ∀ k < 9, toBig (factor.getD k []) = k := by
  decide +kernel

theorem scalar_eq (value : FieldElement) (k : ℕ) (listed : k < 9) : scalar value k = value * k := by
  rw [scalar, factor_eq k listed]

section Sums

variable {first second : Jacobian FieldElement} {P Q : CurvePoint}

theorem point_double_holds (holds : Holds first P) : Holds (pointDouble first) (P + P) := by
  apply represents_double holds
  · simp only [pointDouble]
    ring
  · simp only [pointDouble, scalar_eq _ _ (by decide : 3 < 9), scalar_eq _ _ (by decide : 4 < 9)]
    push_cast
    ring
  · simp only [pointDouble, scalar_eq _ _ (by decide : 3 < 9), scalar_eq _ _ (by decide : 4 < 9),
      scalar_eq _ _ (by decide : 8 < 9)]
    push_cast
    ring

theorem point_add_test {x₁ y₁ x₂ y₂ : FieldElement} (nonzero : first.z ≠ 0)
    (nonzero' : second.z ≠ 0) (atX : first.x = x₁ * first.z ^ 2) (atY : first.y = y₁ * first.z ^ 3)
    (atX' : second.x = x₂ * second.z ^ 2) (atY' : second.y = y₂ * second.z ^ 3) :
    (first.x * second.z ^ 2 = second.x * first.z ^ 2 ∧
      first.y * (second.z ^ 2 * second.z) = second.y * (first.z ^ 2 * first.z)) ↔
      x₁ = x₂ ∧ y₁ = y₂ := by
  rw [← pow_succ, ← pow_succ, atX, atX', atY, atY', cross_eq_iff nonzero nonzero' 2,
    cross_eq_iff nonzero nonzero' 3]

/-- Where the points differ the arguments stay as they are. -/
theorem point_add_sum (holds : Holds first P) (holds' : Holds second Q)
    (apart : P = Q → P = 0) :
    (pointAdd first second).first = first ∧ (pointAdd first second).second = second ∧
      Holds (pointAdd first second).sum (P + Q) := by
  cases holds with
  | infinity zero =>
      rw [pointAdd, if_pos zero, zero_add]
      exact ⟨rfl, rfl, holds'⟩
  | @affine x₁ y₁ on nonzero atX atY =>
      cases holds' with
      | infinity zero =>
          rw [pointAdd, if_neg nonzero, if_pos zero, add_zero]
          exact ⟨rfl, rfl, .affine on nonzero atX atY⟩
      | @affine x₂ y₂ on' nonzero' atX' atY' =>
          have differ : ¬(x₁ = x₂ ∧ y₁ = y₂) := by
            rintro ⟨rfl, rfl⟩
            exact WeierstrassCurve.Affine.Point.some_ne_zero on (apart rfl)
          have test := point_add_test nonzero nonzero' atX atY atX' atY'
          rw [pointAdd, if_neg nonzero, if_neg nonzero']
          simp only [if_neg (mt test.mp differ), scalar_eq _ _ (by decide : 2 < 9)]
          refine ⟨trivial, trivial, ?_⟩
          by_cases same : x₁ = x₂
          · -- opposite points: the difference of the first coordinates is zero
            have opposite := (WeierstrassCurve.Affine.Y_eq_of_X_eq on.1 on'.1 same).resolve_left
              (fun equal => differ ⟨same, equal⟩)
            rw [WeierstrassCurve.Affine.Point.add_of_Y_eq same opposite]
            apply Represents.infinity
            rw [atX, atX', same]
            ring
          · apply represents_sum same (mul_ne_zero nonzero nonzero')
            · rw [atX, atX']
              ring
            · rw [atX, atX', atY, atY']
              push_cast
              ring
            · rw [atX, atX', atY, atY']
              push_cast
              ring

/-- Equal points: the first argument is doubled, and the result is infinity. -/
theorem point_add_self (holds : Holds first P) (holds' : Holds second P) (finite : P ≠ 0) :
    (pointAdd first second).first = pointDouble first ∧ (pointAdd first second).sum.z = 0 := by
  cases holds with
  | infinity zero => exact absurd rfl finite
  | @affine x y on nonzero atX atY =>
      cases holds' with
      | affine on' nonzero' atX' atY' =>
          have test := (point_add_test nonzero nonzero' atX atY atX' atY').mpr ⟨rfl, rfl⟩
          rw [pointAdd, if_neg nonzero, if_neg nonzero']
          simp only [if_pos test]
          refine ⟨trivial, ?_⟩
          rw [test.1, sub_self, mul_zero]

theorem point_double_ne (holds : Holds first P) (nonzero : P ≠ 0) :
    pointDouble first ≠ first := by
  intro same
  have twice := point_double_holds holds
  rw [same] at twice
  exact nonzero (left_eq_add.mp (represents_unique holds twice))

end Sums

theorem double_eq (P : CurvePoint) : double (affine P) = affine (P + P) :=
  to_affine_eq (point_double_holds (from_big_holds P))

theorem add_apart {P Q : CurvePoint} (apart : P = Q → P = 0) :
    add (affine P) (affine Q) = affine (P + Q) :=
  to_affine_eq (point_add_sum (from_big_holds P) (from_big_holds Q) apart).2.2

theorem add_self {P : CurvePoint} (nonzero : P ≠ 0) : add (affine P) (affine P) = ⟨0, 0⟩ := by
  have infinity : Holds _ (0 : CurvePoint) :=
    .infinity (point_add_self (from_big_holds P) (from_big_holds P) nonzero).2
  rw [add, to_affine_eq infinity]
  rfl

theorem add_eq_iff (P Q : CurvePoint) :
    add (affine P) (affine Q) = affine (P + Q) ↔ (P = Q → P + P = 0) := by
  by_cases equal : P = Q ∧ P ≠ 0
  · obtain ⟨rfl, nonzero⟩ := equal
    rw [add_self nonzero]
    constructor
    · intro origin _
      by_contra finite
      exact affine_ne_origin finite origin.symm
    · intro order
      rw [order rfl]
      rfl
  · have apart : P = Q → P = 0 := by
      intro same
      by_contra nonzero
      exact equal ⟨same, nonzero⟩
    apply iff_of_true (add_apart apart)
    intro same
    rw [apart same, add_zero]

/-- `Add` gives the sum, and `sm2P256PointAdd` leaves the coordinates of its arguments as
they are. -/
structure AddsPoints (P Q : CurvePoint) : Prop where
  sum : add (affine P) (affine Q) = affine (P + Q)
  keepsFirst : ∀ first second : Jacobian FieldElement, Holds first P → Holds second Q →
    (pointAdd first second).first = first
  keepsSecond : ∀ first second : Jacobian FieldElement, Holds first P → Holds second Q →
    (pointAdd first second).second = second

/-- `Double` is the double of every point. `Add` is the sum of all points but a point and
itself: there `sm2P256PointAdd` doubles its first argument in place and returns infinity. -/
theorem addition_group_law_iff (P Q : CurvePoint) :
    double (affine P) = affine (P + P) ∧
      (add (affine P) (affine Q) = affine (P + Q) ↔ (P = Q → P + P = 0)) ∧
      (AddsPoints P Q ↔ (P = Q → P = 0)) := by
  refine ⟨double_eq P, add_eq_iff P Q, ?_, ?_⟩
  · rintro adds rfl
    by_contra nonzero
    have holds := from_big_holds P
    apply point_double_ne holds nonzero
    rw [← (point_add_self holds holds nonzero).1]
    exact adds.keepsFirst _ _ holds holds
  · intro apart
    exact {
      sum := add_apart apart
      keepsFirst := fun _ _ holds holds' => (point_add_sum holds holds' apart).1
      keepsSecond := fun _ _ holds holds' => (point_add_sum holds holds' apart).2.1 }

theorem base_on_curve : sm2P256.Nonsingular gx gy := by
  have equation : ((gy ^ 2 : ℕ) : FieldElement) = ((gx ^ 3 + a * gx + b : ℕ) : FieldElement) :=
    (ZMod.natCast_eq_natCast_iff' _ _ _).mpr (by decide)
  rw [nonsingular_iff]
  exact_mod_cast equation

def basePoint : CurvePoint := .some gx gy base_on_curve

theorem base_twice : basePoint + basePoint ≠ 0 := by
  have ordinate : ((2 * gy : ℕ) : FieldElement) ≠ 0 := by
    rw [Ne, ZMod.natCast_eq_zero_iff]
    decide
  have ascending : (gy : FieldElement) ≠ sm2P256.negY gx gy := by
    intro vertical
    apply ordinate
    rw [WeierstrassCurve.Affine.negY] at vertical
    push_cast
    linear_combination vertical
  rw [basePoint, WeierstrassCurve.Affine.Point.add_self_of_Y_ne ascending]
  exact WeierstrassCurve.Affine.Point.some_ne_zero _

theorem affine_base : affine basePoint = ⟨gx, gy⟩ := by
  have reducedX : (gx : FieldElement).val = gx := ZMod.val_natCast_of_lt (by decide)
  have reducedY : (gy : FieldElement).val = gy := ZMod.val_natCast_of_lt (by decide)
  simp only [affine, basePoint, coordinates, reducedX, reducedY]

/-- The base point and itself. -/
theorem base_point_not_doubled :
    add ⟨gx, gy⟩ ⟨gx, gy⟩ = ⟨0, 0⟩ ∧ double ⟨gx, gy⟩ ≠ ⟨0, 0⟩ ∧
      double ⟨gx, gy⟩ = affine (basePoint + basePoint) ∧
      (pointAdd (fromBig ⟨gx, gy⟩) (fromBig ⟨gx, gy⟩)).first ≠ fromBig ⟨gx, gy⟩ := by
  have nonzero : basePoint ≠ 0 := WeierstrassCurve.Affine.Point.some_ne_zero base_on_curve
  have holds := from_big_holds basePoint
  rw [← affine_base]
  refine ⟨add_self nonzero, ?_, double_eq basePoint, ?_⟩
  · rw [double_eq]
    exact affine_ne_origin base_twice
  · rw [(point_add_self holds holds nonzero).1]
    exact point_double_ne holds nonzero

end PbftBlock.CurveAddition
