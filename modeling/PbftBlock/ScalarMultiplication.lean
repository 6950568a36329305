import Mathlib.Data.List.GetD
import PbftBlock.PrecomputedPoints

/-!
# Multiples of points

`ScalarMult` goes through a number in windows of four bits, and `ScalarBaseMult` adds the
bits that lie 32 places apart from the table of precomputed points. As in
`CurveAddition`, a field element is the number that its limbs hold, and the arithmetic of
the field is exact. Neither function looks at the points it adds: infinity is followed by
masks, and equal points are not met because the number is below the order.
-/

namespace PbftBlock.ScalarMultiplication

open PbftBlock.Library.BigEndian PbftBlock.Library.JacobianPoints PbftBlock.CurveAddition
open PbftBlock.CurveOrder PbftBlock.CurveSize PbftBlock.PrecomputedPoints
open PbftBlock.FieldLimbs (nonZeroToAllOnes)
open PbftBlock.Sm2 (Point)

set_option autoImplicit false

section Transcription

/-- The 32 bytes of the number, the lowest first. The array is written out of its bounds,
and the program panics, for a number below the order in more than 32 bytes. -/
def sm2P256GetScalar (a : List UInt8) : Option (List UInt8) :=
  let scalarBytes := if n ≤ ofBytes a then minimal (ofBytes a % n) else a
  if scalarBytes.length ≤ 32 then
    some (scalarBytes.reverse ++ List.replicate (32 - scalarBytes.length) 0)
  else none

def sm2P256PointAddMixed (first : Jacobian FieldElement) (x2 y2 : FieldElement) :
    Jacobian FieldElement :=
  let z1z1 := first.z ^ 2
  let tmp := first.z + first.z
  let u2 := x2 * z1z1
  let z1z1z1 := first.z * z1z1
  let s2 := y2 * z1z1z1
  let h := u2 - first.x
  let i := (h + h) ^ 2
  let j := h * i
  let r := (s2 - first.y) + (s2 - first.y)
  let v := first.x * i
  let x3 := r ^ 2 - j - v - v
  ⟨x3, (v - x3) * r - first.y * j - first.y * j, tmp * h⟩

def sm2P256GetBit (scalar : List UInt8) (bit : ℕ) : UInt32 :=
  ((scalar.getD (bit >>> 3) 0 >>> UInt8.ofNat (bit &&& 7)) &&& 1).toUInt32

/-- The point that the loops build, and the mask that says whether nothing has been added
to it yet. -/
structure Loop where
  out : Jacobian FieldElement
  nIsInfinityMask : UInt32

def elements (limbs : Jacobian (List UInt32)) : Jacobian FieldElement :=
  ⟨element limbs.x, element limbs.y, element limbs.z⟩

/-- The three calls of `sm2P256CopyConditional` for the coordinates of a point. -/
def copyPoint (out input : Jacobian FieldElement) (mask : UInt32) : Jacobian FieldElement :=
  if mask = ones then input else out

/-- The copies of the limbs are those of the elements that they stand for, with either of
the masks that the loops make. -/
theorem copy_point_limbs {out input : Jacobian (List UInt32)} {mask : UInt32}
    (either : mask = ones ∨ mask = 0) (xs : out.x.length = input.x.length)
    (ys : out.y.length = input.y.length) (zs : out.z.length = input.z.length) :
    copyPoint (elements out) (elements input) mask =
      elements ⟨sm2P256CopyConditional out.x input.x mask,
        sm2P256CopyConditional out.y input.y mask, sm2P256CopyConditional out.z input.z mask⟩ := by
  obtain ⟨x, x0⟩ := copy_conditional_eq xs
  obtain ⟨y, y0⟩ := copy_conditional_eq ys
  obtain ⟨z, z0⟩ := copy_conditional_eq zs
  rcases either with rfl | rfl
  · rw [copyPoint, if_pos rfl, x, y, z]
  · rw [copyPoint, if_neg (by decide), x0, y0, z0]

/-- The end of a turn of both loops, from the point of the table and the sum with it. -/
def Loop.put (loop : Loop) (p t : Jacobian FieldElement) (index : UInt32) : Loop :=
  let out := copyPoint loop.out p loop.nIsInfinityMask
  let pIsNoninfiniteMask := nonZeroToAllOnes index
  let mask := pIsNoninfiniteMask &&& ~~~loop.nIsInfinityMask
  ⟨copyPoint out t mask, loop.nIsInfinityMask &&& ~~~pIsNoninfiniteMask⟩

def Loop.start : Loop := ⟨⟨0, 0, 0⟩, ones⟩

def Loop.double (loop : Loop) : Loop := { loop with out := pointDouble loop.out }

/-- The four bits that lie 64 places apart, from one of the lowest 64. -/
def combIndex (scalar : List UInt8) (i j : ℕ) : UInt32 :=
  sm2P256GetBit scalar (31 - i + j) ||| (sm2P256GetBit scalar (95 - i + j) <<< 1) |||
    (sm2P256GetBit scalar (159 - i + j) <<< 2) ||| (sm2P256GetBit scalar (223 - i + j) <<< 3)

/-- The inner loop of `sm2P256ScalarBaseMult` for one of its two tables. -/
def combAdd (scalar : List UInt8) (i : ℕ) (second : Bool) (loop : Loop) : Loop :=
  let index := combIndex scalar i (if second then 32 else 0)
  let selected := sm2P256SelectAffinePoint (tableFrom second) index
  let px := element selected.1
  let py := element selected.2
  loop.put ⟨px, py, (toBig (factor.getD 1 []) : ℕ)⟩ (sm2P256PointAddMixed loop.out px py) index

def combTurn (scalar : List UInt8) (loop : Loop) (i : ℕ) : Loop :=
  let loop := if i ≠ 0 then loop.double else loop
  combAdd scalar i true (combAdd scalar i false loop)

def sm2P256ScalarBaseMult (scalar : List UInt8) : Jacobian FieldElement :=
  ((List.range 32).foldl (combTurn scalar) Loop.start).out

/-- The next two entries of the table of `sm2P256ScalarMult`. -/
def precompRound (x y : FieldElement) (table : List (Jacobian FieldElement)) (k : ℕ) :
    List (Jacobian FieldElement) :=
  let double := pointDouble (table.getD (k + 1) ⟨0, 0, 0⟩)
  table ++ [double, sm2P256PointAddMixed double x y]

/-- The table so far; its first entry stays zero. -/
def precompTo (x y : FieldElement) (rounds : ℕ) : List (Jacobian FieldElement) :=
  (List.range rounds).foldl (precompRound x y)
    [⟨0, 0, 0⟩, ⟨x, y, (toBig (factor.getD 1 []) : ℕ)⟩]

def precomp (x y : FieldElement) : List (Jacobian FieldElement) := precompTo x y 7

def windowIndex (scalar : List UInt8) (i : ℕ) : UInt32 :=
  let index := (scalar.getD (31 - i / 2) 0).toUInt32
  if i % 2 = 1 then index &&& 15 else index >>> 4

/-- `sm2P256PointAdd` may change its first point. -/
def Loop.add (loop : Loop) (p : Jacobian FieldElement) (index : UInt32) : Loop :=
  let added := pointAdd loop.out p
  { loop with out := added.first }.put p added.sum index

/-- The masks of `sm2P256SelectJacobianPoint` take an entry as those of the other table do. -/
def windowTurn (scalar : List UInt8) (table : List (Jacobian FieldElement)) (loop : Loop)
    (i : ℕ) : Loop :=
  let loop := if i ≠ 0 then loop.double.double.double.double else loop
  let index := windowIndex scalar i
  loop.add (table.getD index.toNat ⟨0, 0, 0⟩) index

def sm2P256ScalarMult (x y : FieldElement) (scalar : List UInt8) : Jacobian FieldElement :=
  ((List.range 64).foldl (windowTurn scalar (precomp x y)) Loop.start).out

def scalarMult (point : Point) (k : List UInt8) : Option Point :=
  (sm2P256GetScalar k).map fun scalar =>
    toAffine (sm2P256ScalarMult (point.x : ℕ) (point.y : ℕ) scalar)

def scalarBaseMult (k : List UInt8) : Option Point :=
  (sm2P256GetScalar k).map fun scalar => toAffine (sm2P256ScalarBaseMult scalar)

end Transcription

/-! ## The number and its digits -/

section Digits

variable {scalar : List UInt8}

def number (scalar : List UInt8) : ℕ := ofBytes scalar.reverse

theorem number_byte (scalar : List UInt8) (q : ℕ) :
    number scalar / 256 ^ q % 256 = (scalar.getD q 0).toNat := by
  induction scalar generalizing q with
  | nil =>
      rw [number, List.reverse_nil, ofBytes, List.foldl_nil, Nat.zero_div, List.getD_nil]
      rfl
  | cons byte scalar induction =>
      have small := byte.toNat_lt
      have split : number (byte :: scalar) = number scalar * 256 + byte.toNat := by
        rw [number, List.reverse_cons, of_bytes_append_byte, number]
      cases q with
      | zero =>
          rw [split, Nat.pow_zero, Nat.div_one, List.getD_cons_zero]
          omega
      | succ q =>
          have low : (number scalar * 256 + byte.toNat) / 256 = number scalar := by omega
          rw [split, Nat.pow_succ', ← Nat.div_div_eq_div_mul, low, List.getD_cons_succ]
          exact induction q

/-- What `sm2P256GetScalar` returns is the number modulo the order. -/
theorem get_scalar_eq (a : List UInt8) :
    if a.length ≤ 32 ∨ n ≤ ofBytes a then
      ∃ scalar, sm2P256GetScalar a = some scalar ∧ number scalar = ofBytes a % n
    else sm2P256GetScalar a = none := by
  have padded (bytes : List UInt8) (more : ℕ) :
      number (bytes.reverse ++ List.replicate more 0) = ofBytes bytes := by
    rw [number, List.reverse_append, List.reverse_reverse, List.reverse_replicate]
    induction more with
    | zero => rfl
    | succ more induction =>
        rw [List.replicate_succ, List.cons_append, of_bytes_cons, induction]
        simp
  have fits : n < 256 ^ 32 := by decide
  have positive : 0 < n := by decide
  by_cases large : n ≤ ofBytes a
  · have small : ofBytes a % n < 256 ^ 32 := Nat.lt_trans (Nat.mod_lt _ positive) fits
    have short := (minimal_length_le_iff 32 (ofBytes a % n)).mpr small
    rw [if_pos (Or.inr large), sm2P256GetScalar]
    simp only [if_pos large, if_pos short]
    exact ⟨_, rfl, by rw [padded, of_bytes_minimal]⟩
  · by_cases short : a.length ≤ 32
    · rw [if_pos (Or.inl short), sm2P256GetScalar]
      simp only [if_neg large, if_pos short]
      exact ⟨_, rfl, by rw [padded, Nat.mod_eq_of_lt (by omega)]⟩
    · rw [if_neg (by omega), sm2P256GetScalar]
      simp only [if_neg large, if_neg short]

theorem get_bit_eq (scalar : List UInt8) (bit : ℕ) :
    sm2P256GetBit scalar bit = UInt32.ofNat (number scalar / 2 ^ bit % 2) := by
  have byte := number_byte scalar (bit / 8)
  have place : bit >>> 3 = bit / 8 := Nat.shiftRight_eq_div_pow bit 3
  have within : bit &&& 7 = bit % 8 := Nat.and_two_pow_sub_one_eq_mod bit 3
  have power : 2 ^ bit = 256 ^ (bit / 8) * 2 ^ (bit % 8) := by
    rw [show 256 = 2 ^ 8 from rfl, ← Nat.pow_mul, ← Nat.pow_add, Nat.div_add_mod]
  have remainder : bit % 8 < 8 := Nat.mod_lt _ (by decide)
  have same : number scalar / 256 ^ (bit / 8) % 256 / 2 ^ (bit % 8) % 2 =
      number scalar / 256 ^ (bit / 8) / 2 ^ (bit % 8) % 2 := by
    generalize number scalar / 256 ^ (bit / 8) = quotient
    generalize bit % 8 = r at remainder
    interval_cases r <;> omega
  have value : ((scalar.getD (bit / 8) 0 >>> UInt8.ofNat (bit % 8)) &&& 1).toNat =
      number scalar / 2 ^ bit % 2 := by
    have shift : (UInt8.ofNat (bit % 8)).toNat = bit % 8 := by
      rw [UInt8.toNat_ofNat']
      omega
    rw [UInt8.toNat_and, UInt8.toNat_shiftRight, shift, Nat.mod_mod, UInt8.toNat_one,
      Nat.and_one_is_mod, Nat.shiftRight_eq_div_pow, ← byte, same, power, Nat.div_div_eq_div_mul]
  apply UInt32.toNat.inj
  rw [sm2P256GetBit, place, within, UInt8.toNat_toUInt32, value, UInt32.toNat_ofNat']
  omega

theorem window_index_eq (scalar : List UInt8) {i : ℕ} (turn : i < 64) :
    windowIndex scalar i = UInt32.ofNat (number scalar / 16 ^ (63 - i) % 16) := by
  have byte := number_byte scalar (31 - i / 2)
  apply UInt32.toNat.inj
  rw [UInt32.toNat_ofNat', windowIndex]
  split_ifs with odd
  · have power : 16 ^ (63 - i) = 256 ^ (31 - i / 2) := by
      rw [show 256 = 16 ^ 2 from rfl, ← Nat.pow_mul]
      congr 1
      omega
    have low : (scalar.getD (31 - i / 2) 0).toNat &&& (15 : UInt32).toNat =
        (scalar.getD (31 - i / 2) 0).toNat % 16 := Nat.and_two_pow_sub_one_eq_mod _ 4
    rw [UInt32.toNat_and, UInt8.toNat_toUInt32, power, low]
    omega
  · have power : 16 ^ (63 - i) = 256 ^ (31 - i / 2) * 16 := by
      rw [show 256 = 16 ^ 2 from rfl, ← Nat.pow_mul, ← Nat.pow_succ]
      congr 1
      omega
    have four : (4 : UInt32).toNat % 32 = 4 := rfl
    rw [UInt32.toNat_shiftRight, UInt8.toNat_toUInt32, power, ← Nat.div_div_eq_div_mul, ← byte,
      four, Nat.shiftRight_eq_div_pow]
    omega

end Digits

/-! ## What the loops have reached -/

section Turns

variable {P : CurvePoint} {m : ℕ} {loop : Loop}

theorem one_eq : ((toBig (factor.getD 1 []) : ℕ) : FieldElement) = 1 := by
  rw [factor_eq 1 (by decide), Nat.cast_one]

/-- The sum with a point in affine form, for points that differ. -/
theorem point_add_mixed_holds {first : Jacobian FieldElement} {x₂ y₂ : FieldElement}
    (on' : sm2P256.Nonsingular x₂ y₂) (holds : Holds first P) (finite : P ≠ 0)
    (apart : P ≠ .some x₂ y₂ on') :
    Holds (sm2P256PointAddMixed first x₂ y₂) (P + .some x₂ y₂ on') := by
  cases holds with
  | infinity zero => exact absurd rfl finite
  | @affine x₁ y₁ on nonzero atX atY =>
      by_cases same : x₁ = x₂
      · -- opposite points: the difference of the first coordinates is zero
        have differ : y₁ ≠ y₂ := by
          rintro rfl
          subst same
          exact apart rfl
        have opposite := (WeierstrassCurve.Affine.Y_eq_of_X_eq on.1 on'.1 same).resolve_left differ
        rw [WeierstrassCurve.Affine.Point.add_of_Y_eq same opposite]
        apply Represents.infinity
        simp only [sm2P256PointAddMixed]
        rw [atX, same]
        ring
      · have two : (2 : FieldElement) ≠ 0 := by decide
        have chord : Holds ⟨(y₂ - y₁) ^ 2 - (x₁ + x₂) * (x₂ - x₁) ^ 2,
            (y₂ - y₁) * (x₁ * (x₂ - x₁) ^ 2 - ((y₂ - y₁) ^ 2 - (x₁ + x₂) * (x₂ - x₁) ^ 2)) -
              y₁ * (x₂ - x₁) ^ 3, x₂ - x₁⟩ (.some x₁ y₁ on + .some x₂ y₂ on') := by
          apply represents_sum same one_ne_zero
          · ring
          · ring
          · ring
        have scaled := represents_scale chord (mul_ne_zero two (pow_ne_zero 3 nonzero))
        convert scaled using 1
        apply Jacobian.ext
        · simp only [sm2P256PointAddMixed, atX, atY]
          ring
        · simp only [sm2P256PointAddMixed, atX, atY]
          ring
        · simp only [sm2P256PointAddMixed, atX]
          ring

theorem mixed_sum {first : Jacobian FieldElement} {x₂ y₂ : FieldElement} {Q : CurvePoint}
    (holds : Holds first P) (holds' : Holds ⟨x₂, y₂, 1⟩ Q) (finite : P ≠ 0) (apart : P ≠ Q) :
    Holds (sm2P256PointAddMixed first x₂ y₂) (P + Q) := by
  cases holds' with
  | infinity zero => exact absurd zero one_ne_zero
  | @affine x y on nonzero atX atY =>
      obtain rfl : x₂ = x := by simpa using atX
      obtain rfl : y₂ = y := by simpa using atY
      exact point_add_mixed_holds on holds finite apart

/-- The loop has reached the multiple with `m`. While that is zero, only the mask counts. -/
structure Reached (P : CurvePoint) (m : ℕ) (loop : Loop) : Prop where
  mask : loop.nIsInfinityMask = if m = 0 then ones else 0
  holds : m ≠ 0 → Holds loop.out (m • P)

theorem reached_start (P : CurvePoint) : Reached P 0 Loop.start where
  mask := rfl
  holds nonzero := absurd rfl nonzero

theorem reached_double (reached : Reached P m loop) : Reached P (2 * m) loop.double where
  mask := by
    have zero : 2 * m = 0 ↔ m = 0 := by omega
    simp only [zero]
    exact reached.mask
  holds nonzero := by
    rw [mul_nsmul', two_nsmul]
    exact point_double_holds (reached.holds (by omega))

theorem non_zero_mask : ∀ index < 16,
    nonZeroToAllOnes (UInt32.ofNat index) = if index = 0 then 0 else ones := by
  decide

/-- One more multiple. The sum is used only if both points are finite. -/
theorem reached_put {p t : Jacobian FieldElement} {index more : ℕ} (small : index < 16)
    (reached : Reached P m loop) (none : index = 0 ↔ more = 0)
    (point : more ≠ 0 → Holds p (more • P))
    (sum : m ≠ 0 → more ≠ 0 → Holds t ((m + more) • P)) :
    Reached P (m + more) (loop.put p t (UInt32.ofNat index)) ∧
      (m + more = 0 → (loop.put p t (UInt32.ofNat index)).out = p) := by
  have flag := non_zero_mask index small
  have mask := reached.mask
  have apart : ones ≠ 0 := by decide
  by_cases zero : m = 0
  · rw [if_pos zero] at mask
    subst zero
    have added : loop.put p t (UInt32.ofNat index) =
        ⟨p, ones &&& ~~~nonZeroToAllOnes (UInt32.ofNat index)⟩ := by
      have cleared : nonZeroToAllOnes (UInt32.ofNat index) &&& ~~~ones = 0 := UInt32.and_zero
      simp only [Loop.put, mask, copyPoint, cleared, if_neg apart.symm, if_true]
    rw [added, Nat.zero_add]
    refine ⟨⟨?_, point⟩, fun _ => rfl⟩
    rw [flag]
    by_cases empty : index = 0
    · rw [if_pos empty, if_pos (none.mp empty)]
      rfl
    · rw [if_neg empty, if_neg (mt none.mpr empty)]
      rfl
  · rw [if_neg zero] at mask
    have added : loop.put p t (UInt32.ofNat index) =
        ⟨copyPoint loop.out t (nonZeroToAllOnes (UInt32.ofNat index)), 0⟩ := by
      have kept : nonZeroToAllOnes (UInt32.ofNat index) &&& ~~~(0 : UInt32) =
          nonZeroToAllOnes (UInt32.ofNat index) := UInt32.and_neg_one
      have clear : 0 &&& ~~~nonZeroToAllOnes (UInt32.ofNat index) = 0 := UInt32.zero_and
      simp only [Loop.put, mask, kept, clear, copyPoint, if_neg apart.symm]
    rw [added]
    refine ⟨⟨(if_neg (by omega)).symm, fun _ => ?_⟩, fun all => absurd all (by omega)⟩
    rw [flag, copyPoint]
    by_cases empty : index = 0
    · rw [if_pos empty, if_neg apart.symm, none.mp empty, Nat.add_zero]
      exact reached.holds zero
    · rw [if_neg empty, if_pos rfl]
      exact sum zero (mt none.mpr empty)

/-- The affine form at the end of a loop, also where nothing was added. -/
theorem reached_affine {out : Jacobian FieldElement} (reached : Reached P m loop)
    (idle : m = 0 → toAffine loop.out = ⟨0, 0⟩) (last : loop.out = out) :
    toAffine out = affine (m • P) := by
  rw [← last]
  by_cases zero : m = 0
  · rw [idle zero, zero, zero_nsmul]
    rfl
  · exact to_affine_eq (reached.holds zero)

end Turns

/-! ## Windows of four bits -/

section Windows

variable {x y : FieldElement} {scalar : List UInt8} {loop : Loop}

theorem affine_one_holds (on : sm2P256.Nonsingular x y) :
    Holds ⟨x, y, 1⟩ (.some x y on : CurvePoint) := by
  apply Represents.affine on one_ne_zero
  · simp
  · simp

/-- Each round adds the next even multiple and the one behind it. -/
theorem precomp_to_holds (on : sm2P256.Nonsingular x y) {rounds : ℕ} (few : rounds ≤ 7) :
    (precompTo x y rounds).length = 2 * rounds + 2 ∧
      ∀ k < 2 * rounds + 2,
        Holds ((precompTo x y rounds).getD k ⟨0, 0, 0⟩) (k • .some x y on : CurvePoint) := by
  have finite : (.some x y on : CurvePoint) ≠ 0 := WeierstrassCurve.Affine.Point.some_ne_zero on
  have large : 16 < n := by decide
  induction rounds with
  | zero =>
      refine ⟨rfl, fun k below => ?_⟩
      obtain rfl | rfl : k = 0 ∨ k = 1 := by omega
      · rw [zero_nsmul]
        exact Represents.infinity rfl
      · rw [one_nsmul, precompTo, one_eq]
        exact affine_one_holds on
  | succ r induction =>
      obtain ⟨length, entries⟩ := induction (by omega)
      have table : precompTo x y (r + 1) = precompRound x y (precompTo x y r) r := by
        rw [precompTo, List.range_succ, List.foldl_append, List.foldl_cons, List.foldl_nil,
          precompTo]
      have double := point_double_holds (entries (r + 1) (by omega))
      rw [← two_nsmul, ← mul_nsmul'] at double
      have nonzero : (2 * (r + 1)) • (.some x y on : CurvePoint) ≠ 0 := by
        rw [Ne, smul_eq_zero_iff finite]
        exact Nat.not_dvd_of_pos_of_lt (by omega) (by omega)
      have apart := smul_ne_smul finite (by omega : 2 * (r + 1) < n) (by omega : 1 < n) (by omega)
      rw [one_nsmul] at apart
      have sum := mixed_sum double (affine_one_holds on) nonzero apart
      rw [← succ_nsmul] at sum
      rw [table, precompRound]
      refine ⟨by rw [List.length_append, length]; rfl, fun k below => ?_⟩
      by_cases old : k < 2 * r + 2
      · rw [List.getD_append _ _ _ _ (by omega)]
        exact entries k old
      · rw [List.getD_append_right _ _ _ _ (by omega), length]
        obtain rfl | rfl : k = 2 * r + 2 ∨ k = 2 * r + 3 := by omega
        · rw [Nat.sub_self]
          exact double
        · rw [show 2 * r + 3 - (2 * r + 2) = 1 by omega]
          exact sum

theorem precomp_holds (on : sm2P256.Nonsingular x y) {k : ℕ} (small : k < 16) :
    Holds ((precomp x y).getD k ⟨0, 0, 0⟩) (k • .some x y on : CurvePoint) :=
  (precomp_to_holds on (Nat.le_refl 7)).2 k small

theorem precomp_zero (x y : FieldElement) : (precomp x y).getD 0 ⟨0, 0, 0⟩ = ⟨0, 0, 0⟩ := by
  have kept : ∀ rounds, ∃ more, precompTo x y rounds = ⟨0, 0, 0⟩ :: more := by
    intro rounds
    induction rounds with
    | zero => exact ⟨_, rfl⟩
    | succ r induction =>
        obtain ⟨more, table⟩ := induction
        rw [precompTo, List.range_succ, List.foldl_append, List.foldl_cons, List.foldl_nil,
          ← precompTo, precompRound, table]
        exact ⟨_, rfl⟩
  obtain ⟨more, table⟩ := kept 7
  rw [precomp, table, List.getD_cons_zero]

/-- What the windows of infinity meet: its affine form is no point of the curve. -/
def Void (triple : Jacobian FieldElement) : Prop := triple.z = 0 ∨ triple = ⟨0, 0, 1⟩

theorem void_double {triple : Jacobian FieldElement} (void : Void triple) :
    (pointDouble triple).z = 0 := by
  rcases void with zero | rfl
  · simp only [pointDouble, zero]
    ring
  · decide

theorem void_affine {triple : Jacobian FieldElement} (void : Void triple) :
    toAffine triple = ⟨0, 0⟩ := by
  rcases void with zero | rfl
  · rw [toAffine, zero, inv_zero]
    simp
  · simp [toAffine]

structure WindowsReached (P : CurvePoint) (scalar : List UInt8) (i : ℕ) (loop : Loop) : Prop
    extends Reached P (number scalar / 16 ^ (64 - i)) loop where
  idle : number scalar / 16 ^ (64 - i) = 0 → loop.out = ⟨0, 0, 0⟩

theorem window_digits (s : ℕ) {i : ℕ} (turn : i < 64) :
    s / 16 ^ (63 - i) = 16 * (s / 16 ^ (64 - i)) + s / 16 ^ (63 - i) % 16 := by
  have power : 16 ^ (64 - i) = 16 ^ (63 - i) * 16 := by
    rw [← Nat.pow_succ]
    congr 1
    omega
  rw [power, ← Nat.div_div_eq_div_mul]
  omega

theorem reached_add {P : CurvePoint} {m digit : ℕ} {p : Jacobian FieldElement} (small : digit < 16)
    (reached : Reached P m loop) (point : Holds p (digit • P))
    (apart : m • P = digit • P → m • P = 0) :
    Reached P (m + digit) (loop.add p (UInt32.ofNat digit)) ∧
      (m + digit = 0 → (loop.add p (UInt32.ofNat digit)).out = p) := by
  have kept : Reached P m { loop with out := (pointAdd loop.out p).first } := by
    refine ⟨reached.mask, fun nonzero => ?_⟩
    rw [(point_add_sum (reached.holds nonzero) point apart).1]
    exact reached.holds nonzero
  apply reached_put small kept Iff.rfl (fun _ => point)
  intro nonzero _
  rw [add_nsmul]
  exact (point_add_sum (reached.holds nonzero) point apart).2.2

theorem windows_doubled {P : CurvePoint} (below : number scalar < n) {i : ℕ}
    (reached : Reached P (number scalar / 16 ^ (64 - i)) loop) :
    Reached P (16 * (number scalar / 16 ^ (64 - i)))
      (if i ≠ 0 then loop.double.double.double.double else loop) := by
  by_cases first : i = 0
  · have zero : number scalar / 16 ^ (64 - i) = 0 := by
      rw [first]
      exact Nat.div_eq_of_lt (Nat.lt_trans below (by decide))
    rw [if_neg (not_not.mpr first), zero]
    rwa [zero] at reached
  · have four := reached_double (reached_double (reached_double (reached_double reached)))
    rw [if_pos first]
    rwa [← Nat.mul_assoc, ← Nat.mul_assoc, ← Nat.mul_assoc] at four

theorem window_turn_reached (on : sm2P256.Nonsingular x y) (below : number scalar < n) {i : ℕ}
    (turn : i < 64) (reached : WindowsReached (.some x y on) scalar i loop) :
    WindowsReached (.some x y on) scalar (i + 1) (windowTurn scalar (precomp x y) loop i) := by
  have finite : (.some x y on : CurvePoint) ≠ 0 := WeierstrassCurve.Affine.Point.some_ne_zero on
  have digits := window_digits (number scalar) turn
  have bound : number scalar / 16 ^ (63 - i) ≤ number scalar := Nat.div_le_self _ _
  have doubled := windows_doubled below reached.toReached
  have index := window_index_eq scalar turn
  have small : number scalar / 16 ^ (63 - i) % 16 < 16 := Nat.mod_lt _ (by decide)
  generalize number scalar / 16 ^ (63 - i) % 16 = digit at *
  generalize number scalar / 16 ^ (64 - i) = m at *
  have apart : (16 * m) • (.some x y on : CurvePoint) = digit • .some x y on →
      (16 * m) • (.some x y on : CurvePoint) = 0 := by
    intro same
    by_cases zero : 16 * m = 0
    · rw [zero, zero_nsmul]
    · exact absurd same (smul_ne_smul finite (by omega) (by omega) (by omega))
  obtain ⟨next, idle⟩ := reached_add small doubled (precomp_holds on small) apart
  have value : (UInt32.ofNat digit).toNat = digit := by
    rw [UInt32.toNat_ofNat']
    omega
  have power : 64 - (i + 1) = 63 - i := by omega
  rw [windowTurn, index, value]
  refine ⟨?_, ?_⟩
  · rw [power, digits]
    exact next
  · rw [power, digits]
    intro zero
    rw [idle zero, show digit = 0 by omega]
    exact precomp_zero x y

/-- `sm2P256ScalarMult` for a point of the curve and a number below its order. -/
theorem scalar_mult_point (on : sm2P256.Nonsingular x y) (below : number scalar < n) :
    toAffine (sm2P256ScalarMult x y scalar) = affine (number scalar • .some x y on) := by
  have turns : ∀ i ≤ 64, WindowsReached (.some x y on) scalar i
      ((List.range i).foldl (windowTurn scalar (precomp x y)) Loop.start) := by
    intro i
    induction i with
    | zero =>
        intro _
        have zero : number scalar / 16 ^ (64 - 0) = 0 :=
          Nat.div_eq_of_lt (Nat.lt_trans below (by decide))
        refine ⟨?_, fun _ => rfl⟩
        rw [zero]
        exact reached_start _
    | succ i induction =>
        intro turn
        rw [List.range_succ, List.foldl_append, List.foldl_cons, List.foldl_nil]
        exact window_turn_reached on below turn (induction (by omega))
  have last := turns 64 (Nat.le_refl 64)
  have whole : number scalar / 16 ^ (64 - 64) = number scalar := Nat.div_one _
  have reached := last.toReached
  have idle := last.idle
  rw [whole] at reached idle
  refine reached_affine reached (fun zero => ?_) rfl
  rw [idle zero]
  exact void_affine (Or.inl rfl)

theorem void_precomp (k : ℕ) : Void ((precomp 0 0).getD k ⟨0, 0, 0⟩) := by
  have listed : ∀ entry ∈ precomp 0 0, entry.z = 0 ∨ entry = ⟨0, 0, 1⟩ := by decide +kernel
  by_cases within : k < (precomp 0 0).length
  · rw [List.getD_eq_getElem _ _ within]
    exact listed _ (List.getElem_mem within)
  · rw [List.getD_eq_default _ _ (by omega)]
    exact Or.inl rfl

theorem void_add {p : Jacobian FieldElement} (void : loop.out.z = 0) (point : Void p)
    (index : UInt32) : Void (loop.add p index).out := by
  have added : pointAdd loop.out p = ⟨loop.out, p, p⟩ := by rw [pointAdd, if_pos void]
  simp only [Loop.add, added, Loop.put, copyPoint]
  split_ifs
  · exact point
  · exact point
  · exact Or.inl void

theorem void_turn (void : Void loop.out) {i : ℕ} (later : i = 0 → loop.out.z = 0) :
    Void (windowTurn scalar (precomp 0 0) loop i).out := by
  have point := void_precomp (windowIndex scalar i).toNat
  rw [windowTurn]
  by_cases first : i = 0
  · rw [if_neg (not_not.mpr first)]
    exact void_add (later first) point _
  · have once : loop.double.out.z = 0 := void_double void
    have twice : loop.double.double.out.z = 0 := void_double (Or.inl once)
    have thrice : loop.double.double.double.out.z = 0 := void_double (Or.inl twice)
    have four : loop.double.double.double.double.out.z = 0 := void_double (Or.inl thrice)
    rw [if_pos first]
    exact void_add four point _

theorem scalar_mult_infinity (scalar : List UInt8) :
    toAffine (sm2P256ScalarMult 0 0 scalar) = ⟨0, 0⟩ := by
  have turns : ∀ i, Void ((List.range i).foldl (windowTurn scalar (precomp 0 0)) Loop.start).out := by
    intro i
    induction i with
    | zero => exact Or.inl rfl
    | succ i induction =>
        rw [List.range_succ, List.foldl_append, List.foldl_cons, List.foldl_nil]
        apply void_turn induction
        rintro rfl
        rfl
  exact void_affine (turns 64)

end Windows

/-! ## Bits that lie 32 places apart -/

section Comb

variable {scalar : List UInt8} {loop : Loop}

/-- The upper `i` bits of each of the eight blocks of 32 bits. -/
def upper (s i c : ℕ) : ℕ := s / 2 ^ (32 * c) % 2 ^ 32 / 2 ^ (32 - i)

def blocks (f : ℕ → ℕ) : ℕ :=
  f 0 + 2 ^ 32 * f 1 + 2 ^ 64 * f 2 + 2 ^ 96 * f 3 + 2 ^ 128 * f 4 + 2 ^ 160 * f 5 +
    2 ^ 192 * f 6 + 2 ^ 224 * f 7

/-- The bit that turn `i` adds to a block. -/
def bitOf (s i c : ℕ) : ℕ := s / 2 ^ (31 - i + 32 * c) % 2

theorem bit_of_le (s i c : ℕ) : bitOf s i c ≤ 1 := Nat.le_of_lt_succ (Nat.mod_lt _ (by decide))

theorem upper_succ (s c : ℕ) {i : ℕ} (turn : i < 32) :
    upper s (i + 1) c = 2 * upper s i c + bitOf s i c := by
  have power : 2 ^ (32 - i) = 2 ^ (31 - i) * 2 := by
    rw [← Nat.pow_succ]
    congr 1
    omega
  have place : s / 2 ^ (31 - i + 32 * c) = s / 2 ^ (32 * c) / 2 ^ (31 - i) := by
    rw [Nat.div_div_eq_div_mul, ← Nat.pow_add, Nat.add_comm]
  have bit : s / 2 ^ (32 * c) % 2 ^ 32 / 2 ^ (31 - i) % 2 =
      s / 2 ^ (32 * c) / 2 ^ (31 - i) % 2 := by
    have same := Nat.testBit_mod_two_pow (s / 2 ^ (32 * c)) 32 (31 - i)
    rw [decide_eq_true (by omega : 31 - i < 32), Bool.true_and,
      Nat.testBit_eq_decide_div_mod_eq, Nat.testBit_eq_decide_div_mod_eq,
      decide_eq_decide] at same
    omega
  rw [upper, upper, bitOf, place, ← bit, power, ← Nat.div_div_eq_div_mul,
    show 32 - (i + 1) = 31 - i by omega]
  omega

theorem upper_zero (s c : ℕ) : upper s 0 c = 0 :=
  Nat.div_eq_of_lt (Nat.mod_lt _ (by decide))

theorem upper_le (s c : ℕ) (i : ℕ) : upper s i c ≤ upper s 32 c := by
  have whole : upper s 32 c = s / 2 ^ (32 * c) % 2 ^ 32 := Nat.div_one _
  rw [whole]
  exact Nat.div_le_self _ _

theorem upper_lt (s c : ℕ) {i : ℕ} (turn : i < 32) : upper s i c < 2 ^ 31 := by
  have next := upper_succ s c turn
  have bound := upper_le s c (i + 1)
  have whole : upper s 32 c < 2 ^ 32 := by
    rw [upper, Nat.sub_self, Nat.pow_zero, Nat.div_one]
    exact Nat.mod_lt _ (by decide)
  omega

theorem blocks_whole {s : ℕ} (fits : s < 2 ^ 256) : blocks (upper s 32) = s := by
  have split (c : ℕ) : s / 2 ^ (32 * c) = upper s 32 c + 2 ^ 32 * (s / 2 ^ (32 * (c + 1))) := by
    rw [upper, Nat.sub_self, Nat.pow_zero, Nat.div_one, Nat.mul_add, Nat.pow_add, Nat.mul_one,
      ← Nat.div_div_eq_div_mul]
    exact (Nat.mod_add_div _ _).symm
  have top : s / 2 ^ (32 * 8) = 0 := Nat.div_eq_of_lt fits
  have h0 := split 0
  have h1 := split 1
  have h2 := split 2
  have h3 := split 3
  have h4 := split 4
  have h5 := split 5
  have h6 := split 6
  have h7 := split 7
  rw [Nat.mul_zero, Nat.pow_zero, Nat.div_one] at h0
  rw [top] at h7
  unfold blocks
  omega

theorem blocks_le {f g : ℕ → ℕ} (le : ∀ c, f c ≤ g c) : blocks f ≤ blocks g := by
  have h0 := le 0
  have h1 := le 1
  have h2 := le 2
  have h3 := le 3
  have h4 := le 4
  have h5 := le 5
  have h6 := le 6
  have h7 := le 7
  unfold blocks
  omega

/-- The bits of a turn for one of the two tables. -/
def tooth (s i : ℕ) (second : Bool) (c : ℕ) : ℕ :=
  if c % 2 = second.toNat then bitOf s i c else 0

def toothIndex (s i : ℕ) (second : Bool) : ℕ :=
  bitOf s i second.toNat + 2 * bitOf s i (2 + second.toNat) + 4 * bitOf s i (4 + second.toNat) +
    8 * bitOf s i (6 + second.toNat)

theorem tooth_index_lt (s i : ℕ) (second : Bool) : toothIndex s i second < 16 := by
  have b0 := bit_of_le s i second.toNat
  have b2 := bit_of_le s i (2 + second.toNat)
  have b4 := bit_of_le s i (4 + second.toNat)
  have b6 := bit_of_le s i (6 + second.toNat)
  unfold toothIndex
  omega

theorem bits_index : ∀ b0 < 2, ∀ b2 < 2, ∀ b4 < 2, ∀ b6 < 2,
    UInt32.ofNat b0 ||| (UInt32.ofNat b2 <<< 1) ||| (UInt32.ofNat b4 <<< 2) |||
      (UInt32.ofNat b6 <<< 3) = UInt32.ofNat (b0 + 2 * b2 + 4 * b4 + 8 * b6) := by
  decide

theorem comb_index_eq (scalar : List UInt8) {i : ℕ} (turn : i < 32) (second : Bool) :
    combIndex scalar i (if second then 32 else 0) =
      UInt32.ofNat (toothIndex (number scalar) i second) := by
  have offset : (if second then 32 else 0) = 32 * second.toNat := by cases second <;> rfl
  have place (c : ℕ) : 31 + 32 * c - i + 32 * second.toNat = 31 - i + 32 * (c + second.toNat) := by
    omega
  have bit (c : ℕ) : number scalar / 2 ^ (31 + 32 * c - i + 32 * second.toNat) % 2 =
      bitOf (number scalar) i (c + second.toNat) := by
    rw [bitOf, place]
  have small (c : ℕ) : bitOf (number scalar) i c < 2 := Nat.lt_succ_of_le (bit_of_le _ _ _)
  have b0 := bit 0
  rw [Nat.zero_add] at b0
  rw [combIndex, offset, get_bit_eq, get_bit_eq, get_bit_eq, get_bit_eq, b0, bit 2, bit 4, bit 6]
  exact bits_index _ (small _) _ (small _) _ (small _) _ (small _)

theorem multiple_tooth (s i : ℕ) (second : Bool) :
    multiple second (toothIndex s i second) = blocks (tooth s i second) := by
  have bits (c : ℕ) := bit_of_le s i c
  cases second with
  | false =>
      have b0 := bits 0
      have b2 := bits 2
      have b4 := bits 4
      have b6 := bits 6
      simp only [multiple, spread, toothIndex, blocks, tooth, Bool.toNat_false, Nat.add_zero,
        Nat.reduceMod, if_true, Nat.one_ne_zero, if_false, Bool.false_eq_true]
      omega
  | true =>
      have b1 := bits 1
      have b3 := bits 3
      have b5 := bits 5
      have b7 := bits 7
      simp only [multiple, spread, toothIndex, blocks, tooth, Bool.toNat_true, Nat.reduceAdd,
        Nat.reduceMod, if_true, Nat.zero_ne_one, if_false]
      omega

/-- The doubled number has even blocks, and the first bits are no such number. -/
theorem first_apart {s i : ℕ} (turn : i < 32)
    (same : blocks (fun c => 2 * upper s i c) = blocks (tooth s i false)) :
    blocks (tooth s i false) = 0 := by
  have u (c : ℕ) := upper_lt s c turn
  have bits (c : ℕ) := bit_of_le s i c
  have u0 := u 0
  have u1 := u 1
  have u2 := u 2
  have u3 := u 3
  have u4 := u 4
  have u5 := u 5
  have u6 := u 6
  have u7 := u 7
  have b0 := bits 0
  have b2 := bits 2
  have b4 := bits 4
  have b6 := bits 6
  simp only [blocks, tooth, Bool.toNat_false, Nat.reduceMod, if_true, Nat.one_ne_zero,
    if_false] at same ⊢
  omega

/-- With the first bits added, the blocks of the second table are even. -/
theorem second_apart {s i : ℕ} (turn : i < 32)
    (same : blocks (fun c => 2 * upper s i c) + blocks (tooth s i false) =
      blocks (tooth s i true)) : blocks (tooth s i true) = 0 := by
  have u (c : ℕ) := upper_lt s c turn
  have bits (c : ℕ) := bit_of_le s i c
  have u0 := u 0
  have u1 := u 1
  have u2 := u 2
  have u3 := u 3
  have u4 := u 4
  have u5 := u 5
  have u6 := u 6
  have u7 := u 7
  have b0 := bits 0
  have b1 := bits 1
  have b2 := bits 2
  have b3 := bits 3
  have b4 := bits 4
  have b5 := bits 5
  have b6 := bits 6
  have b7 := bits 7
  simp only [blocks, tooth, Bool.toNat_false, Bool.toNat_true, Nat.reduceMod, if_true,
    Nat.one_ne_zero, Nat.zero_ne_one, if_false] at same ⊢
  omega

theorem blocks_turn (s : ℕ) {i : ℕ} (turn : i < 32) :
    blocks (upper s (i + 1)) = blocks (fun c => 2 * upper s i c) + blocks (tooth s i false) +
      blocks (tooth s i true) := by
  have next (c : ℕ) := upper_succ s c turn
  simp only [blocks, next, tooth, Bool.toNat_false, Bool.toNat_true, Nat.reduceMod, if_true,
    Nat.one_ne_zero, Nat.zero_ne_one, if_false]
  omega

theorem blocks_double (f : ℕ → ℕ) : blocks (fun c => 2 * f c) = 2 * blocks f := by
  simp only [blocks]
  omega

theorem blocks_start (s : ℕ) : blocks (upper s 0) = 0 := by
  simp only [blocks, upper_zero, Nat.mul_zero, Nat.add_zero]

theorem blocks_upper_le {s : ℕ} (fits : s < 2 ^ 256) (i : ℕ) : blocks (upper s i) ≤ s :=
  Nat.le_trans (blocks_le fun c => upper_le s c i) (Nat.le_of_eq (blocks_whole fits))

/-- One table. The number reached is not that of the entry, so the sum is one of different
points. -/
theorem comb_add_reached {i m : ℕ} {second : Bool} (turn : i < 32)
    (reached : Reached basePoint m loop)
    (below : m + blocks (tooth (number scalar) i second) < n)
    (apart : m = blocks (tooth (number scalar) i second) →
      blocks (tooth (number scalar) i second) = 0) :
    Reached basePoint (m + blocks (tooth (number scalar) i second))
        (combAdd scalar i second loop) ∧
      (m + blocks (tooth (number scalar) i second) = 0 →
        (combAdd scalar i second loop).out = ⟨0, 0, 1⟩) := by
  have small := tooth_index_lt (number scalar) i second
  have value := multiple_tooth (number scalar) i second
  rw [combAdd, comb_index_eq scalar turn second, one_eq]
  generalize toothIndex (number scalar) i second = index at *
  generalize blocks (tooth (number scalar) i second) = more at *
  have none : index = 0 ↔ more = 0 := by
    rw [← value, multiple]
    cases second with
    | false =>
        rw [spread, if_neg Bool.false_ne_true]
        omega
    | true =>
        rw [spread, if_pos rfl]
        omega
  have point (nonzero : more ≠ 0) : Holds ⟨element (sm2P256SelectAffinePoint (tableFrom second)
      (UInt32.ofNat index)).1, element (sm2P256SelectAffinePoint (tableFrom second)
      (UInt32.ofNat index)).2, 1⟩ (more • basePoint) := by
    have positive : 1 ≤ index := by omega
    rw [select_affine_entry second positive small, ← value]
    exact (precomputed_listed second positive small).holds
  obtain ⟨next, idle⟩ := reached_put small reached none point (fun nonzero nonzero' => by
    have finite : m • basePoint ≠ 0 := by
      rw [Ne, smul_base_eq_zero_iff]
      exact Nat.not_dvd_of_pos_of_lt (by omega) (by omega)
    rw [add_nsmul]
    exact mixed_sum (reached.holds nonzero) (point nonzero') finite
      (smul_ne_smul base_ne_zero (by omega) (by omega) (by omega)))
  refine ⟨next, fun zero => ?_⟩
  rw [idle zero, none.mpr (by omega)]
  obtain ⟨x, y⟩ := select_affine_zero second
  change (⟨element (sm2P256SelectAffinePoint (tableFrom second) 0).1,
    element (sm2P256SelectAffinePoint (tableFrom second) 0).2, 1⟩ : Jacobian FieldElement) = _
  rw [x, y]

theorem comb_turn_reached {i : ℕ} (turn : i < 32) (below : number scalar < n)
    (reached : Reached basePoint (blocks (upper (number scalar) i)) loop) :
    Reached basePoint (blocks (upper (number scalar) (i + 1))) (combTurn scalar loop i) ∧
      (blocks (upper (number scalar) (i + 1)) = 0 →
        (combTurn scalar loop i).out = ⟨0, 0, 1⟩) := by
  have fits : number scalar < 2 ^ 256 := Nat.lt_trans below (by decide)
  have bound := Nat.lt_of_le_of_lt (blocks_upper_le fits (i + 1)) below
  have doubled : Reached basePoint (blocks fun c => 2 * upper (number scalar) i c)
      (if i ≠ 0 then loop.double else loop) := by
    rw [blocks_double]
    by_cases first : i = 0
    · have zero : blocks (upper (number scalar) i) = 0 := by rw [first, blocks_start]
      rw [if_neg (not_not.mpr first), zero]
      rwa [zero] at reached
    · rw [if_pos first]
      exact reached_double reached
  rw [blocks_turn _ turn] at bound ⊢
  obtain ⟨half, _⟩ := comb_add_reached turn doubled (by omega) (first_apart turn)
  exact comb_add_reached turn half bound (second_apart turn)

theorem scalar_base_mult_point (below : number scalar < n) :
    toAffine (sm2P256ScalarBaseMult scalar) = affine (number scalar • basePoint) := by
  have turns : ∀ i ≤ 32, Reached basePoint (blocks (upper (number scalar) i))
      ((List.range i).foldl (combTurn scalar) Loop.start) := by
    intro i
    induction i with
    | zero =>
        intro _
        rw [blocks_start]
        exact reached_start _
    | succ i induction =>
        intro turn
        rw [List.range_succ, List.foldl_append, List.foldl_cons, List.foldl_nil]
        exact (comb_turn_reached turn below (induction (by omega))).1
  have whole : blocks (upper (number scalar) 32) = number scalar :=
    blocks_whole (Nat.lt_trans below (by decide))
  obtain ⟨reached, idle⟩ := comb_turn_reached (by decide : 31 < 32) below (turns 31 (by decide))
  rw [whole] at reached idle
  refine reached_affine reached (fun zero => ?_) ?_
  · rw [idle zero]
    exact void_affine (Or.inr rfl)
  · rw [sm2P256ScalarBaseMult, show List.range 32 = List.range 31 ++ [31] from List.range_succ,
      List.foldl_append, List.foldl_cons, List.foldl_nil]

end Comb

/-! ## The methods of the curve -/

theorem map_scalar {mult : List UInt8 → Point} {P : CurvePoint}
    (gives : ∀ scalar, number scalar < n → mult scalar = affine (number scalar • P))
    (k : List UInt8) :
    (sm2P256GetScalar k).map mult =
      if k.length ≤ 32 ∨ n ≤ ofBytes k then some (affine (ofBytes k • P)) else none := by
  have scalar := get_scalar_eq k
  by_cases reads : k.length ≤ 32 ∨ n ≤ ofBytes k
  · rw [if_pos reads] at scalar ⊢
    obtain ⟨scalar, read, value⟩ := scalar
    have below : number scalar < n := by
      rw [value]
      exact Nat.mod_lt _ (by decide)
    rw [read, Option.map_some, gives scalar below, value, smul_mod P]
  · rw [if_neg reads] at scalar ⊢
    rw [scalar, Option.map_none]

/-- `ScalarMult` gives the multiple of every point, infinity included. It panics for a number
below the order that is written in more than 32 bytes. -/
theorem scalar_mult_eq (P : CurvePoint) (k : List UInt8) :
    scalarMult (affine P) k =
      if k.length ≤ 32 ∨ n ≤ ofBytes k then some (affine (ofBytes k • P)) else none := by
  refine map_scalar (fun scalar below => ?_) k
  cases P with
  | zero =>
      have infinity := scalar_mult_infinity scalar
      rw [← WeierstrassCurve.Affine.Point.zero_def, nsmul_zero]
      simpa [affine, coordinates] using infinity
  | some x y on =>
      simp only [affine, coordinates, ZMod.natCast_zmod_val]
      exact scalar_mult_point on below

theorem scalar_base_mult_eq (k : List UInt8) :
    scalarBaseMult k =
      if k.length ≤ 32 ∨ n ≤ ofBytes k then some (affine (ofBytes k • basePoint)) else none :=
  map_scalar (fun _ below => scalar_base_mult_point below) k

end PbftBlock.ScalarMultiplication
