import Mathlib.GroupTheory.OrderOfElement
import PbftBlock.CurveAddition
import PbftBlock.Sm2Signatures

/-!
# The order of the base point

The number `N` of the curve parameters is prime, and it is the order of the base point.
The multiple with `N - 1` is taken by doubling and adding with `sm2P256PointDouble` and
`sm2P256PointAdd`; no addition on the way meets a point twice.
-/

namespace PbftBlock.CurveOrder

open PbftBlock.Library.JacobianPoints PbftBlock.Library.Primality PbftBlock.CurveAddition
open PbftBlock.Sm2 (Curve Point PrivateKey)
open PbftBlock.Sm2Signatures (Cyclic)

set_option autoImplicit false

def n : ℕ := 0xFFFFFFFEFFFFFFFFFFFFFFFFFFFFFFFF7203DF6B21C6052B53BBF40939D54123

def orderPrimes : List ℕ :=
  [2, 3, 5, 31, 41, 43, 53, 59, 71, 79, 103, 127, 181, 233, 719, 1013, 3049, 4957, 7759, 12149,
    14057, 84163, 110899, 9061163]

def orderCertificate : Certificate where
  number := n
  bits := 256
  root := 3
  factors := [2, 3, 7759, 14057, 1413296869,
    125197554539772723432468576818475380947471091418362477724521]

def orderCertificates : List Certificate :=
  [⟨10042883, 24, 2, [2, 1013, 4957]⟩,
    ⟨17965699, 25, 2, [2, 3, 71, 181, 233]⟩,
    ⟨107615843, 27, 2, [2, 43, 103, 12149]⟩,
    ⟨117774739, 27, 2, [2, 3, 3, 59, 110899]⟩,
    ⟨1413296869, 31, 6, [2, 2, 3, 117774739]⟩,
    ⟨2566129871, 32, 7, [2, 5, 3049, 84163]⟩,
    ⟨2368433183657, 42, 3, [2, 2, 2, 41, 719, 10042883]⟩,
    ⟨5636460199499, 43, 2, [2, 31, 79, 127, 9061163]⟩,
    ⟨101456283590983, 47, 3, [2, 3, 3, 5636460199499]⟩,
    ⟨3258964060712033, 52, 3, [2, 2, 2, 2, 2, 43, 2368433183657]⟩,
    ⟨18120927127286907576013935251791662753637, 134, 6,
      [2, 2, 3, 3, 17965699, 107615843, 2566129871, 101456283590983]⟩,
    ⟨125197554539772723432468576818475380947471091418362477724521, 197, 3,
      [2, 2, 2, 5, 53, 3258964060712033, 18120927127286907576013935251791662753637]⟩,
    orderCertificate]

theorem prime_n : n.Prime := by
  have small : ∀ q ∈ orderPrimes, q.Prime := by norm_num [orderPrimes]
  have passed : certified orderPrimes orderCertificates = true := by decide +kernel
  have member : orderCertificate ∈ orderCertificates := List.mem_of_getLast? rfl
  exact certified_prime small passed orderCertificate member

/-- A multiple of the base point by doubling and adding, for a number of so many bits;
`none` when an addition gives infinity. -/
def times : (bits : ℕ) → (k : ℕ) → Option (Jacobian FieldElement)
  | 0, _ => some ⟨1, 1, 0⟩
  | bits + 1, k => do
      let half ← times bits (k / 2)
      let double := pointDouble half
      if k % 2 = 0 then return double
      let sum := (pointAdd double (fromBig ⟨gx, gy⟩)).sum
      if sum.z = 0 then none else return sum

theorem times_holds {bits k : ℕ} {triple : Jacobian FieldElement} (fits : k < 2 ^ bits)
    (found : times bits k = some triple) : Holds triple (k • basePoint) := by
  induction bits generalizing k triple with
  | zero =>
      obtain rfl : k = 0 := by simpa using fits
      obtain rfl := Option.some.inj found
      rw [zero_nsmul]
      exact Represents.infinity rfl
  | succ bits induction =>
      have below : k / 2 < 2 ^ bits := by
        rw [pow_succ] at fits
        omega
      rw [times, Option.bind_eq_bind, Option.bind_eq_some_iff] at found
      obtain ⟨half, earlier, found⟩ := found
      have double := point_double_holds (induction below earlier)
      rw [← two_nsmul, ← mul_nsmul'] at double
      dsimp only at found
      split_ifs at found with even infinite
      · obtain rfl := Option.some.inj found
        rwa [show 2 * (k / 2) = k by omega] at double
      · obtain rfl := Option.some.inj found
        have base := from_big_holds basePoint
        rw [affine_base] at base
        -- the sum of a point and itself would have come out as infinity
        have apart : (2 * (k / 2)) • basePoint = basePoint → (2 * (k / 2)) • basePoint = 0 := by
          intro same
          rw [same] at double
          by_contra finite
          exact infinite (point_add_self double base (by rwa [same] at finite)).2
        have sum := (point_add_sum double base apart).2.2
        rwa [← succ_nsmul, show 2 * (k / 2) + 1 = k by omega] at sum

theorem base_ne_zero : basePoint ≠ 0 := WeierstrassCurve.Affine.Point.some_ne_zero base_on_curve

theorem times_below_order :
    ∃ triple : Jacobian FieldElement, times 256 (n - 1) = some triple ∧ triple.z ≠ 0 ∧
      triple.x = (gx : FieldElement) * triple.z ^ 2 ∧
      triple.y = -(gy : FieldElement) * triple.z ^ 3 := by
  have evaluated : ((times 256 (n - 1)).any fun triple => decide (triple.z ≠ 0 ∧
      triple.x = (gx : FieldElement) * triple.z ^ 2 ∧
      triple.y = -(gy : FieldElement) * triple.z ^ 3)) = true := by
    decide +kernel
  rw [Option.any_eq_true] at evaluated
  obtain ⟨triple, found, holds⟩ := evaluated
  exact ⟨triple, found, of_decide_eq_true holds⟩

theorem order_smul_base : n • basePoint = 0 := by
  obtain ⟨triple, found, finite, atX, atY⟩ := times_below_order
  have holds := times_holds (by decide : n - 1 < 2 ^ 256) found
  have opposite : Holds triple (-basePoint) := by
    rw [basePoint, WeierstrassCurve.Affine.Point.neg_some]
    apply Represents.affine _ finite atX
    rw [atY, WeierstrassCurve.Affine.negY]
    ring
  have below := represents_unique holds opposite
  rw [show n = (n - 1) + 1 from rfl, succ_nsmul, below, neg_add_cancel]

theorem order_base : addOrderOf basePoint = n := by
  have : Fact n.Prime := ⟨prime_n⟩
  exact addOrderOf_eq_prime order_smul_base base_ne_zero

theorem smul_base_eq_zero_iff (k : ℕ) : k • basePoint = 0 ↔ n ∣ k := by
  rw [← order_base, addOrderOf_dvd_iff_nsmul_eq_zero]

theorem smul_base_mod (k : ℕ) : (k % n) • basePoint = k • basePoint := by
  rw [← order_base, mod_addOrderOf_nsmul]

theorem smul_base_eq_iff (j k : ℕ) : j • basePoint = k • basePoint ↔ j % n = k % n := by
  rw [nsmul_eq_nsmul_iff_modEq, order_base]
  rfl

structure Multiplies (curve : Curve) : Prop where
  order : curve.n = n
  base : ∀ k, curve.scalarBaseMult k = affine (k • basePoint)

structure Implements (curve : Curve) : Prop extends Multiplies curve where
  multiple : ∀ P k, curve.scalarMult (affine P) k = affine (k • P)
  sum : ∀ P Q, curve.add (affine P) (affine Q) = affine (P + Q)

theorem implements_cyclic {curve : Curve} (implements : Implements curve) : Cyclic curve where
  prime := by
    rw [implements.order]
    exact prime_n
  periodic k := by
    rw [implements.base, implements.base, implements.order, smul_base_mod]
  multiple a b := by
    rw [implements.base, implements.multiple, implements.base, mul_nsmul]
  sum a b := by
    rw [implements.base, implements.base, implements.sum, implements.base, add_nsmul]

/-- There are such operations. -/
noncomputable def exactCurve : Curve where
  p := p
  n := n
  scalarMult point k := affine (k • Function.invFun affine point)
  scalarBaseMult k := affine (k • basePoint)
  add first second := affine (Function.invFun affine first + Function.invFun affine second)
  isOnCurve := isOnCurve

theorem affine_injective : Function.Injective affine := by
  intro P Q same
  exact represents_unique (same ▸ from_big_holds P) (from_big_holds Q)

theorem exact_curve_implements : Implements exactCurve where
  order := rfl
  base _ := rfl
  multiple P k := by
    change affine (k • Function.invFun affine (affine P)) = _
    rw [Function.leftInverse_invFun affine_injective]
  sum P Q := by
    change affine (Function.invFun affine (affine P) + Function.invFun affine (affine Q)) = _
    rw [Function.leftInverse_invFun affine_injective, Function.leftInverse_invFun affine_injective]

/-- A private number in range, as a key of the exact operations. -/
noncomputable def exactKey (d : ℕ) (range : 1 ≤ d ∧ d < n) : PrivateKey exactCurve :=
  ⟨d, range.1, range.2⟩

end PbftBlock.CurveOrder
