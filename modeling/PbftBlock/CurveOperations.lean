import PbftBlock.ScalarMultiplication

/-!
# The curve of the package

The operations of `P256Sm2` as the rest of the package calls them, over exact arithmetic in
the field as in `CurveAddition`: the limbs of the source lose a borrow for some operands, and
nothing here is about those. Numbers are handed over as their shortest bytes, which the
multiplications always read. The operations are those of the group of points, except that
`Add` does not double, and a signature feels that only where the two multiples of `Verify` are
equal.
-/

namespace PbftBlock.CurveOperations

open PbftBlock.Library.BigEndian PbftBlock.Sm2 PbftBlock.CurveAddition PbftBlock.CurveOrder
open PbftBlock.CurveSize PbftBlock.ScalarMultiplication PbftBlock.Sm2Signatures
open PbftBlock.Library.JacobianPoints (coordinates)

set_option autoImplicit false

/-- The curve with its numbers as `Bytes` writes them. -/
def codeCurve : Curve where
  p := p
  n := n
  scalarMult point k := (scalarMult point (minimal k)).getD ⟨0, 0⟩
  scalarBaseMult k := (scalarBaseMult (minimal k)).getD ⟨0, 0⟩
  add := add
  isOnCurve := isOnCurve

theorem code_order : codeCurve.n = n := rfl

theorem code_on_curve (point : Point) : codeCurve.isOnCurve point = isOnCurve point := by
  rw [codeCurve]

theorem code_add (first second : Point) : codeCurve.add first second = add first second := rfl

/-- `Bytes` never writes a number that the multiplications do not read. -/
theorem minimal_read (k : ℕ) : (minimal k).length ≤ 32 ∨ n ≤ ofBytes (minimal k) := by
  rw [of_bytes_minimal, minimal_length_le_iff]
  have order : n < 256 ^ 32 := by decide
  omega

theorem code_scalar_mult (P : CurvePoint) (k : ℕ) :
    codeCurve.scalarMult (affine P) k = affine (k • P) := by
  change (scalarMult (affine P) (minimal k)).getD ⟨0, 0⟩ = _
  rw [scalar_mult_eq, if_pos (minimal_read k), of_bytes_minimal, Option.getD_some]

theorem code_scalar_base_mult (k : ℕ) : codeCurve.scalarBaseMult k = affine (k • basePoint) := by
  change (scalarBaseMult (minimal k)).getD ⟨0, 0⟩ = _
  rw [scalar_base_mult_eq, if_pos (minimal_read k), of_bytes_minimal, Option.getD_some]

theorem affine_reduced (P : CurvePoint) : (affine P).x < p ∧ (affine P).y < p :=
  ⟨(coordinates P).1.val_lt, (coordinates P).2.val_lt⟩

theorem smul_base_ne_zero {k : ℕ} (positive : 1 ≤ k) (below : k < n) : k • basePoint ≠ 0 := by
  rw [Ne, smul_base_eq_zero_iff]
  exact Nat.not_dvd_of_pos_of_lt positive below

/-- The table of precomputed points gives what the windows give for the base point, and both
give the multiples of the group. -/
theorem multiples_of_points (P : CurvePoint) (k : List UInt8) :
    scalarMult (affine P) k =
        (if k.length ≤ 32 ∨ n ≤ ofBytes k then some (affine (ofBytes k • P)) else none) ∧
      scalarBaseMult k = scalarMult ⟨gx, gy⟩ k := by
  refine ⟨scalar_mult_eq P k, ?_⟩
  rw [← affine_base, scalar_base_mult_eq, scalar_mult_eq]

/-- What encryption and the handshake of the transport ask of a curve. -/
theorem code_curve_lawful : Lawful codeCurve where
  field := by decide
  order := by decide
  commutes a b := by
    rw [code_scalar_base_mult, code_scalar_base_mult, code_scalar_mult, code_scalar_mult,
      ← mul_nsmul, ← mul_nsmul, Nat.mul_comm]
  base k := by
    rw [code_scalar_base_mult]
    exact affine_reduced _
  multiple a k := by
    rw [code_scalar_base_mult, code_scalar_mult]
    exact affine_reduced _
  onCurve k positive below := by
    obtain ⟨reducedX, reducedY⟩ := affine_reduced (k • basePoint)
    rw [code_order] at below
    rw [code_scalar_base_mult, code_on_curve, is_on_curve_iff reducedX reducedY]
    exact ⟨_, smul_base_ne_zero positive below, rfl⟩

/-- A point with reduced coordinates is accepted exactly when it is the public point of a
private number, and of one only. -/
theorem on_curve_iff_public {point : Point} (reduced : Reduced codeCurve point) :
    codeCurve.isOnCurve point = true ↔
      ∃! prv : ℕ, 1 ≤ prv ∧ prv < codeCurve.n ∧ codeCurve.scalarBaseMult prv = point := by
  rw [code_order, code_on_curve, is_on_curve_iff reduced.1 reduced.2]
  constructor
  · rintro ⟨P, finite, rfl⟩
    obtain ⟨prv, below, rfl⟩ := exists_smul_base P
    refine ⟨prv, ⟨?_, below, code_scalar_base_mult prv⟩, ?_⟩
    · by_contra zero
      obtain rfl : prv = 0 := by omega
      exact finite (zero_nsmul _)
    · rintro other ⟨_, otherBelow, same⟩
      rw [code_scalar_base_mult] at same
      have equal := (smul_base_eq_iff _ _).mp (affine_injective same)
      rwa [Nat.mod_eq_of_lt otherBelow, Nat.mod_eq_of_lt below] at equal
  · rintro ⟨prv, ⟨positive, below, rfl⟩, _⟩
    exact ⟨prv • basePoint, smul_base_ne_zero positive below, (code_scalar_base_mult prv).symm⟩

theorem base_point_public : Reduced codeCurve ⟨gx, gy⟩ ∧
    ∃! prv : ℕ, 1 ≤ prv ∧ prv < codeCurve.n ∧ codeCurve.scalarBaseMult prv = ⟨gx, gy⟩ := by
  have reduced : Reduced codeCurve ⟨gx, gy⟩ := by
    constructor
    · decide
    · decide
  have accepted : codeCurve.isOnCurve ⟨gx, gy⟩ = true := by decide +kernel
  exact ⟨reduced, (on_curve_iff_public reduced).mp accepted⟩

/-! ## Signatures -/

section Signatures

variable {prv : PrivateKey codeCurve} {hash : List UInt8} {draws : List Draw} {e k r s : ℕ}

/-- The key as one of the exact operations, whose `Add` is the sum of the group. -/
noncomputable def exactOf (prv : PrivateKey codeCurve) : PrivateKey exactCurve :=
  exactKey prv.d ⟨prv.positive, prv.below⟩

theorem sign_turn_exact (prv : PrivateKey codeCurve) (e k : ℕ) :
    signTurn prv e k = signTurn (exactOf prv) e k := by
  have first : signR codeCurve e k = signR exactCurve e k := by
    rw [signR, signR, code_scalar_base_mult]
    rfl
  unfold signTurn signTurnWith
  rw [first]
  rfl

theorem last_nonce_exact (prv : PrivateKey codeCurve) (hash : List UInt8) (draws : List Draw) :
    lastNonce prv hash draws = lastNonce (exactOf prv) hash draws := by
  unfold lastNonce
  simp only [sign_turn_exact]
  rfl

theorem sign_exact (prv : PrivateKey codeCurve) (hash : List UInt8) (draws : List Draw) :
    sign prv hash draws = (lastNonce prv hash draws).bind (signTurn prv (ofBytes hash)) := by
  have exact := sign_eq_last_turn (implements_cyclic exact_curve_implements) (exactOf prv) hash
    draws
  have same : signTurn prv = signTurn (exactOf prv) := by
    funext e k
    exact sign_turn_exact prv e k
  rw [last_nonce_exact, same, ← exact, sign, sign, signWith, signWith, ← signTurn, ← signTurn, same]
  rfl

/-- The sum of `Verify` for a signature: the point of the number drawn, or the origin where
its two terms are equal. -/
theorem verify_sum (below : k < n) (signed : Signed (exactOf prv) e k r s) :
    codeCurve.add (codeCurve.scalarBaseMult s)
        (codeCurve.scalarMult prv.point ((r + s) % n)) =
      if k = 2 * s % n then ⟨0, 0⟩ else affine (k • basePoint) := by
  have congruence : s + prv.d * (r + s) ≡ k [MOD n] := signed.congruence
  have own : prv.point = affine (prv.d • basePoint) := code_scalar_base_mult prv.d
  have other : ((r + s) % n) • prv.d • basePoint = (prv.d * (r + s)) • basePoint := by
    rw [← mul_nsmul, smul_base_eq_iff, Nat.mul_mod_mod]
  have total : s • basePoint + (prv.d * (r + s)) • basePoint = k • basePoint := by
    rw [← add_nsmul, smul_base_eq_iff]
    exact congruence
  have finite : s • basePoint ≠ 0 := smul_base_ne_zero signed.secondPositive signed.secondBelow
  have equal : s • basePoint = (prv.d * (r + s)) • basePoint ↔ k = 2 * s % n := by
    rw [smul_base_eq_iff]
    have twice : s ≡ prv.d * (r + s) [MOD n] ↔ s + s ≡ k [MOD n] :=
      ⟨fun same => (same.add_left s).trans congruence,
        fun same => Nat.ModEq.add_left_cancel' s (same.trans congruence.symm)⟩
    refine twice.trans ?_
    rw [Nat.ModEq, Nat.mod_eq_of_lt below, ← Nat.two_mul, eq_comm]
  rw [code_add, own, code_scalar_base_mult, code_scalar_mult, other]
  by_cases same : k = 2 * s % n
  · rw [if_pos same, ← equal.mpr same]
    exact add_self finite
  · rw [if_neg same, add_apart fun coincide => absurd (equal.mp coincide) same, total]

theorem verify_code_signed (below : k < n) (signed : Signed (exactOf prv) (ofBytes hash) k r s) :
    verify codeCurve (some prv.point) hash r s =
      .ok (decide (r + k ≠ n ∧
        (k = 2 * s % n → (codeCurve.scalarBaseMult k).x % n = 0))) := by
  have total : (r + s) % n = 0 ↔ r + k = n :=
    signed_total (implements_cyclic exact_curve_implements) below signed
  have rPositive := signed.firstPositive
  have rBelow : r < n := signed.firstBelow
  have sPositive := signed.secondPositive
  have sBelow : s < n := signed.secondBelow
  have first : r = ((affine (k • basePoint)).x + ofBytes hash) % n := signed.first
  have order : codeCurve.n = n := rfl
  unfold verify
  rw [order, if_neg (by omega), if_neg (by omega)]
  dsimp only
  rw [Int.toNat_natCast, Int.toNat_natCast, verify_sum below signed, code_scalar_base_mult]
  by_cases zero : (r + s) % n = 0
  · have sum := total.mp zero
    rw [if_pos zero, decide_eq_false fun both => both.1 sum]
  · have apart := mt total.mpr zero
    rw [if_neg zero]
    congr 1
    rw [Bool.eq_iff_iff, beq_iff_eq, decide_eq_true_eq]
    by_cases same : k = 2 * s % n
    · have shift : (0 + ofBytes hash) % n = r ↔ (affine (k • basePoint)).x % n = 0 := by
        have cancel : 0 + ofBytes hash ≡ (affine (k • basePoint)).x + ofBytes hash [MOD n] ↔
            0 ≡ (affine (k • basePoint)).x [MOD n] :=
          ⟨Nat.ModEq.add_right_cancel' _, Nat.ModEq.add_right _⟩
        rw [first]
        exact cancel.trans eq_comm
      rw [if_pos same, shift]
      exact ⟨fun zero => ⟨apart, fun _ => zero⟩, fun both => both.2 same⟩
    · rw [if_neg same]
      exact iff_of_true first.symm ⟨apart, fun coincide => absurd coincide same⟩

/-- A signature made with these operations verifies, and there was no panic, unless the
private number is the largest one, the number drawn adds up with `r` to the order, or the
number drawn is the double of `s` and its point has an abscissa that the order divides not. -/
theorem code_signature_verifies_iff (prv : PrivateKey codeCurve) (hash : List UInt8)
    (draws : List Draw) :
    SignsSoundly prv hash draws ↔
      ∀ k, lastNonce prv hash draws = some k →
        prv.d + 1 ≠ n ∧ ∀ r s, signTurn prv (ofBytes hash) k = some (.ok (r, s)) →
          r + k ≠ n ∧ (k = 2 * s % n → (codeCurve.scalarBaseMult k).x % n = 0) := by
  have cyclic := implements_cyclic exact_curve_implements
  have ended := sign_exact prv hash draws
  have signed {k r s : ℕ} (below : k < n)
      (returned : signTurn prv (ofBytes hash) k = some (.ok (r, s))) :
      Signed (exactOf prv) (ofBytes hash) k r s := by
    rw [sign_turn_exact] at returned
    exact sign_turn_ok cyclic below returned
  have bounds {k : ℕ} (last : lastNonce prv hash draws = some k) : k < n := by
    rw [last_nonce_exact] at last
    exact (last_nonce_bounds cyclic last).2
  constructor
  · intro sound k last
    rw [last, Option.bind_some] at ended
    constructor
    · intro largest
      have stops : (signTurn prv (ofBytes hash) k).isSome = true := by
        simpa using List.find?_some last
      obtain ⟨result, stopped⟩ := Option.isSome_iff_exists.mp stops
      cases result with
      | error error => exact sound.calm error (ended.trans stopped)
      | ok digits => exact (signed (bounds last) stopped).invertible largest
    · intro r s returned
      have accepted := (sound.verified r s (ended.trans returned)).2.2.2.2
      rw [verify_code_signed (bounds last) (signed (bounds last) returned)] at accepted
      exact of_decide_eq_true (Except.ok.inj accepted)
  · intro sound
    cases last : lastNonce prv hash draws with
    | none =>
        rw [last, Option.bind_none] at ended
        constructor
        · simp [ended]
        · simp [ended]
    | some k =>
        obtain ⟨invertible, verifies⟩ := sound k last
        rw [last, Option.bind_some] at ended
        constructor
        · intro error
          rw [ended, sign_turn_exact]
          exact sign_turn_calm cyclic invertible error
        · intro r s returned
          rw [ended] at returned
          have turn := signed (bounds last) returned
          refine ⟨turn.firstPositive, turn.firstBelow, turn.secondPositive, turn.secondBelow, ?_⟩
          rw [verify_code_signed (bounds last) turn, decide_eq_true (verifies r s returned)]

end Signatures

end PbftBlock.CurveOperations
