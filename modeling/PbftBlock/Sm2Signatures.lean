import Mathlib.Data.Int.GCD
import Mathlib.Data.Int.ModEq
import Mathlib.Data.Nat.Prime.Basic
import Mathlib.Tactic.NormNum.Prime
import PbftBlock.NodeKeys

/-!
# Signing with SM2

`Sign` of `crypto-gm/sm2`. The curve operations are those of a cyclic group of
prime order, and the numbers it draws are blocks of bytes from its generator. A
signature verifies unless the private number is the largest one, for which the
inverse of `1 + D` does not exist, or the number drawn adds up with `r` to the
order: the test against this stands behind the exit of the inner loop.
-/

namespace PbftBlock.Sm2Signatures

open PbftBlock.Library.BigEndian PbftBlock.Sm2 PbftBlock.NodeKeys

set_option autoImplicit false

section Transcription

variable {curve : Curve}

/-- `ModInverse`: nil unless the numbers are coprime. -/
def modInverse (g n : Nat) : Option Nat :=
  if Nat.gcd g n = 1 then some (Nat.gcdA g n % n).toNat else none

/-- The bytes `randFieldElement` reads for a curve of 256 bits. -/
abbrev Draw := Bytes 40

def randFieldElement (curve : Curve) (b : Draw) : Nat := ofBytes b.1 % (curve.n - 1) + 1

def signR (curve : Curve) (e k : Nat) : Nat := ((curve.scalarBaseMult k).x + e) % curve.n

/-- One turn of the two loops of `Sign`, which draw a number each time around;
`none` when the number is dropped. `Sign` reads the private number of a key only, which it
does not check: an extended key may hold zero or one that is not below the order. -/
def signTurnWith (curve : Curve) (d e k : Nat) : Option (Except CryptoError (Nat × Nat)) :=
  let r := signR curve e k
  -- the second test is reached with r = 0 only
  if r ≠ 0 ∨ r + k = curve.n then
    match modInverse (d + 1) curve.n with
    -- the product with a nil number
    | none => some (.error .panicked)
    | some d1Inv =>
        let s := (((k : Int) - (d * r : Nat)) * d1Inv % curve.n).toNat
        if s ≠ 0 then some (.ok (r, s)) else none
  else none

/-- `Sign` with the blocks its generator yields; `none` while they do not
suffice. -/
def signWith (curve : Curve) (d : Nat) (hash : List UInt8) (draws : List Draw) :
    Option (Except CryptoError (Nat × Nat)) :=
  if curve.n = 0 then some (.error (.text "zero parameter"))
  else (draws.map (randFieldElement curve)).findSome? (signTurnWith curve d (ofBytes hash))

def signTurn (prv : PrivateKey curve) : Nat → Nat → Option (Except CryptoError (Nat × Nat)) :=
  signTurnWith curve prv.d

def sign (prv : PrivateKey curve) : List UInt8 → List Draw →
    Option (Except CryptoError (Nat × Nat)) :=
  signWith curve prv.d

end Transcription

/-- The multiples of the base point are a cyclic group of prime order. -/
structure Cyclic (curve : Curve) : Prop where
  prime : Nat.Prime curve.n
  periodic : ∀ k, curve.scalarBaseMult (k % curve.n) = curve.scalarBaseMult k
  multiple : ∀ a b, curve.scalarMult (curve.scalarBaseMult a) b = curve.scalarBaseMult (a * b)
  sum : ∀ a b, curve.add (curve.scalarBaseMult a) (curve.scalarBaseMult b) =
    curve.scalarBaseMult (a + b)

theorem mod_inverse_some {g n x : Nat} (found : modInverse g n = some x) (positive : 0 < n) :
    (g * x : Int) ≡ 1 [ZMOD n] := by
  unfold modInverse at found
  split_ifs at found with coprime
  obtain rfl := Option.some.inj found
  have reduced : 0 ≤ Nat.gcdA g n % (n : Int) := Int.emod_nonneg _ (by omega)
  rw [Int.toNat_of_nonneg reduced]
  have bezout := Nat.gcd_eq_gcd_ab g n
  rw [coprime] at bezout
  calc (g : Int) * (Nat.gcdA g n % n) ≡ g * Nat.gcdA g n [ZMOD n] :=
        (Int.mod_modEq _ _).mul_left _
    _ ≡ g * Nat.gcdA g n + n * Nat.gcdB g n [ZMOD n] := by
        rw [Int.ModEq, Int.add_mul_emod_self_left]
    _ = 1 := by rw [← bezout]; rfl

section Group

variable {curve : Curve} (cyclic : Cyclic curve)

include cyclic

theorem base_congr {a b : Nat} (same : a ≡ b [MOD curve.n]) :
    curve.scalarBaseMult a = curve.scalarBaseMult b := by
  rw [← cyclic.periodic a, ← cyclic.periodic b, same]

/-- `1 + D` has an inverse for every private number but the largest. -/
theorem mod_inverse_none_iff (prv : PrivateKey curve) :
    modInverse (prv.d + 1) curve.n = none ↔ prv.d + 1 = curve.n := by
  have below := prv.below
  unfold modInverse
  split_ifs with coprime
  · refine iff_of_false (by simp) fun largest => ?_
    rw [largest, Nat.gcd_self] at coprime
    exact cyclic.prime.one_lt.ne' coprime
  · refine iff_of_true rfl ?_
    have shared : curve.n ∣ prv.d + 1 := by
      rw [Nat.gcd_comm] at coprime
      exact (Nat.Prime.coprime_iff_not_dvd cyclic.prime).not_left.mp coprime
    exact Nat.le_antisymm (by omega) (Nat.le_of_dvd (by omega) shared)

theorem rand_field_element_bounds (b : Draw) :
    1 ≤ randFieldElement curve b ∧ randFieldElement curve b < curve.n := by
  have large := cyclic.prime.two_le
  have small := Nat.mod_lt (ofBytes b.1) (show 0 < curve.n - 1 by omega)
  unfold randFieldElement
  omega

/-- What a turn that ends the loops has computed. -/
structure Signed (prv : PrivateKey curve) (e k r s : Nat) : Prop where
  invertible : prv.d + 1 ≠ curve.n
  first : r = signR curve e k
  firstPositive : 1 ≤ r
  firstBelow : r < curve.n
  secondPositive : 1 ≤ s
  secondBelow : s < curve.n
  congruence : s + prv.d * (r + s) ≡ k [MOD curve.n]

theorem sign_turn_ok {prv : PrivateKey curve} {e k r s : Nat} (below : k < curve.n)
    (returned : signTurn prv e k = some (.ok (r, s))) : Signed prv e k r s := by
  have positive : 0 < curve.n := cyclic.prime.pos
  unfold signTurn signTurnWith at returned
  dsimp only at returned
  split_ifs at returned with stops
  cases found : modInverse (prv.d + 1) curve.n with
  | none =>
      rw [found] at returned
      cases returned
  | some d1Inv =>
      rw [found] at returned
      dsimp only at returned
      split_ifs at returned with nonzero
      have pair := Except.ok.inj (Option.some.inj returned)
      obtain ⟨rfl, rfl⟩ := Prod.mk.inj pair
      have rBelow : signR curve e k < curve.n := Nat.mod_lt _ positive
      set numerator : Int := (k : Int) - (prv.d * signR curve e k : Nat) with numeratorEq
      have sNonneg : 0 ≤ numerator * d1Inv % (curve.n : Int) := Int.emod_nonneg _ (by omega)
      have sBelow : numerator * d1Inv % (curve.n : Int) < curve.n :=
        Int.emod_lt_of_pos _ (by omega)
      refine ⟨?_, rfl, by omega, rBelow, by omega, by omega, ?_⟩
      · intro largest
        rw [(mod_inverse_none_iff cyclic prv).mpr largest] at found
        cases found
      · rw [← Int.natCast_modEq_iff]
        push_cast
        rw [Int.toNat_of_nonneg sNonneg]
        have inverse := mod_inverse_some found positive
        push_cast at inverse
        -- s (1 + D) is the numerator again
        have product : (numerator * d1Inv % curve.n) * (1 + prv.d) ≡ numerator [ZMOD curve.n] :=
          calc (numerator * d1Inv % curve.n) * (1 + prv.d)
              ≡ numerator * d1Inv * (1 + prv.d) [ZMOD curve.n] := (Int.mod_modEq _ _).mul_right _
            _ = numerator * ((prv.d + 1) * d1Inv) := by ring
            _ ≡ numerator * 1 [ZMOD curve.n] := inverse.mul_left _
            _ = numerator := mul_one _
        calc numerator * d1Inv % curve.n + prv.d * (signR curve e k + numerator * d1Inv % curve.n)
            = (numerator * d1Inv % curve.n) * (1 + prv.d) + prv.d * signR curve e k := by ring
          _ ≡ numerator + prv.d * signR curve e k [ZMOD curve.n] := product.add_right _
          _ = k := by rw [numeratorEq]; push_cast; ring

/-- `t` vanishes exactly when the number drawn and `r` add up to the order. -/
theorem signed_total {prv : PrivateKey curve} {e k r s : Nat} (below : k < curve.n)
    (signed : Signed prv e k r s) : (r + s) % curve.n = 0 ↔ r + k = curve.n := by
  have rBelow := signed.firstBelow
  have rPositive := signed.firstPositive
  have shared : (r + s) * (1 + prv.d) ≡ r + k [MOD curve.n] := by
    have shifted := signed.congruence.add_left r
    rwa [show r + (s + prv.d * (r + s)) = (r + s) * (1 + prv.d) by ring] at shifted
  constructor
  · intro zero
    have divides : curve.n ∣ r + k := by
      rw [← shared.dvd_iff (dvd_refl _)]
      exact (Nat.dvd_of_mod_eq_zero zero).mul_right _
    exact Nat.eq_of_dvd_of_lt_two_mul (by omega) divides (by omega)
  · intro total
    have divides : curve.n ∣ (r + s) * (1 + prv.d) := by
      rw [shared.dvd_iff (dvd_refl _), total]
    rcases cyclic.prime.dvd_mul.mp divides with sum | factor
    · exact Nat.mod_eq_zero_of_dvd sum
    · have large := Nat.le_of_dvd (by omega) factor
      have small := prv.below
      exact absurd (by omega) signed.invertible

theorem verify_signed {prv : PrivateKey curve} {hash : List UInt8} {k r s : Nat}
    (below : k < curve.n) (signed : Signed prv (ofBytes hash) k r s) :
    Sm2.verify curve (some prv.point) hash r s = .ok (decide (r + k ≠ curve.n)) := by
  have total := signed_total cyclic below signed
  have rBounds := And.intro signed.firstPositive signed.firstBelow
  have sBounds := And.intro signed.secondPositive signed.secondBelow
  unfold Sm2.verify
  rw [if_neg (by omega), if_neg (by omega)]
  dsimp only
  rw [Int.toNat_natCast, Int.toNat_natCast]
  by_cases zero : (r + s) % curve.n = 0
  · rw [if_pos zero, decide_eq_false (not_not.mpr (total.mp zero))]
  · have apart : r + k ≠ curve.n := fun sum => zero (total.mpr sum)
    rw [if_neg zero, decide_eq_true apart]
    -- s G + t P is the point of the number drawn
    have point : curve.add (curve.scalarBaseMult s)
        (curve.scalarMult prv.point ((r + s) % curve.n)) = curve.scalarBaseMult k := by
      unfold PrivateKey.point
      rw [cyclic.multiple, cyclic.sum]
      apply base_congr cyclic
      exact ((Nat.mod_modEq _ _).mul_left prv.d).add_left s |>.trans signed.congruence
    rw [point, signed.first]
    simp [signR]

end Group

section Signing

variable {curve : Curve}

def lastNonce (prv : PrivateKey curve) (hash : List UInt8) (draws : List Draw) : Option Nat :=
  (draws.map (randFieldElement curve)).find? fun k => (signTurn prv (ofBytes hash) k).isSome

theorem find_some_eq_bind {α β : Type*} (f : α → Option β) (list : List α) :
    list.findSome? f = (list.find? fun a => (f a).isSome).bind f := by
  induction list with
  | nil => rfl
  | cons head rest induction =>
      cases found : f head with
      | none => simp [found, induction]
      | some value => simp [found]

theorem last_nonce_bounds (cyclic : Cyclic curve) {prv : PrivateKey curve} {hash : List UInt8}
    {draws : List Draw} {k : Nat} (last : lastNonce prv hash draws = some k) :
    1 ≤ k ∧ k < curve.n := by
  obtain ⟨b, _, rfl⟩ := List.mem_map.mp (List.mem_of_find?_eq_some last)
  exact rand_field_element_bounds cyclic b

/-- `Sign` ends with the turn of the last number. -/
theorem sign_eq_last_turn (cyclic : Cyclic curve) (prv : PrivateKey curve) (hash : List UInt8)
    (draws : List Draw) :
    sign prv hash draws = (lastNonce prv hash draws).bind (signTurn prv (ofBytes hash)) := by
  unfold sign signWith
  rw [if_neg cyclic.prime.ne_zero]
  exact find_some_eq_bind _ _

/-- The signature is in range and verifies, and there was no panic. -/
structure SignsSoundly (prv : PrivateKey curve) (hash : List UInt8) (draws : List Draw) :
    Prop where
  calm : ∀ error, sign prv hash draws ≠ some (.error error)
  verified : ∀ r s, sign prv hash draws = some (.ok (r, s)) →
    1 ≤ r ∧ r < curve.n ∧ 1 ≤ s ∧ s < curve.n ∧
      Sm2.verify curve (some prv.point) hash r s = .ok true

theorem sign_turn_calm (cyclic : Cyclic curve) {prv : PrivateKey curve} {e k : Nat}
    (invertible : prv.d + 1 ≠ curve.n) (error : CryptoError) :
    signTurn prv e k ≠ some (.error error) := by
  unfold signTurn signTurnWith
  dsimp only
  split_ifs
  · cases found : modInverse (prv.d + 1) curve.n with
    | none => exact absurd ((mod_inverse_none_iff cyclic prv).mp found) invertible
    | some d1Inv =>
        dsimp only
        split_ifs <;> simp
  · simp

/-- A signature verifies unless the private number is the largest one or the
number drawn and `r` add up to the order. -/
theorem signature_verifies_iff (curve : Curve) (cyclic : Cyclic curve) (prv : PrivateKey curve)
    (hash : List UInt8) (draws : List Draw) :
    SignsSoundly prv hash draws ↔
      ∀ k, lastNonce prv hash draws = some k →
        prv.d + 1 ≠ curve.n ∧ signR curve (ofBytes hash) k + k ≠ curve.n := by
  have ended := sign_eq_last_turn cyclic prv hash draws
  constructor
  · intro sound k last
    have below := (last_nonce_bounds cyclic last).2
    rw [last, Option.bind_some] at ended
    have stops : (signTurn prv (ofBytes hash) k).isSome = true := by
      simpa using List.find?_some last
    obtain ⟨result, stopped⟩ := Option.isSome_iff_exists.mp stops
    cases result with
    | error error => exact absurd (ended.trans stopped) (sound.calm error)
    | ok digits =>
        obtain ⟨r, s⟩ := digits
        have signed := sign_turn_ok cyclic below stopped
        have accepted := (sound.verified r s (ended.trans stopped)).2.2.2.2
        rw [verify_signed cyclic below signed] at accepted
        refine ⟨signed.invertible, ?_⟩
        rw [← signed.first]
        exact of_decide_eq_true (Except.ok.inj accepted)
  · intro sound
    cases last : lastNonce prv hash draws with
    | none =>
        rw [last] at ended
        refine ⟨fun error failed => ?_, fun r s returned => ?_⟩
        · rw [ended] at failed
          cases failed
        · rw [ended] at returned
          cases returned
    | some k =>
        obtain ⟨invertible, apart⟩ := sound k last
        have below := (last_nonce_bounds cyclic last).2
        rw [last, Option.bind_some] at ended
        refine ⟨fun error => ?_, fun r s returned => ?_⟩
        · rw [ended]
          exact sign_turn_calm cyclic invertible error
        · rw [ended] at returned
          have signed := sign_turn_ok cyclic below returned
          refine ⟨signed.firstPositive, signed.firstBelow, signed.secondPositive,
            signed.secondBelow, ?_⟩
          rw [verify_signed cyclic below signed, signed.first, decide_eq_true apart]

/-- The integers modulo seven, as a curve. -/
def dial : Curve where
  p := 7
  n := 7
  scalarMult point k := ⟨point.x * k % 7, point.x * k % 7⟩
  scalarBaseMult k := ⟨k % 7, k % 7⟩
  add left right := ⟨(left.x + right.x) % 7, (left.x + right.x) % 7⟩
  isOnCurve _ := true

theorem dial_cyclic : Cyclic dial where
  prime := by
    change Nat.Prime 7
    norm_num
  periodic k := by
    change (⟨k % 7 % 7, k % 7 % 7⟩ : Point) = ⟨k % 7, k % 7⟩
    rw [Nat.mod_mod]
  multiple a b := by
    change (⟨a % 7 * b % 7, a % 7 * b % 7⟩ : Point) = ⟨a * b % 7, a * b % 7⟩
    rw [Nat.mod_mul_mod]
  sum a b := by
    change (⟨(a % 7 + b % 7) % 7, (a % 7 + b % 7) % 7⟩ : Point) = ⟨(a + b) % 7, (a + b) % 7⟩
    rw [← Nat.add_mod]

def drawOf (byte : UInt8) : Draw := ⟨List.replicate 39 0 ++ [byte], rfl⟩

def secondKey : PrivateKey dial := ⟨2, Nat.two_pos, by decide⟩

def largestKey : PrivateKey dial := ⟨6, by decide, by decide⟩

theorem signature_verifies_on_dial :
    sign secondKey [1] [drawOf 5, drawOf 1] = some (.ok (3, 1)) ∧
      SignsSoundly secondKey [1] [drawOf 5, drawOf 1] := by
  refine ⟨by decide +kernel, ?_⟩
  refine (signature_verifies_iff dial dial_cyclic secondKey [1] _).mpr fun k last => ?_
  have drawn : lastNonce secondKey [1] [drawOf 5, drawOf 1] = some 2 := by decide +kernel
  rw [drawn] at last
  obtain rfl := Option.some.inj last
  exact ⟨by decide, by decide +kernel⟩

/-- The largest private number panics; and a number drawn that adds up with `r`
to the order gives a signature that does not verify. -/
theorem signature_panics_or_fails :
    sign largestKey [1] [drawOf 1] = some (.error .panicked) ∧
      sign secondKey [1] [drawOf 2] = some (.ok (4, 3)) ∧
      Sm2.verify dial (some secondKey.point) [1] 4 3 = .ok false := by
  refine ⟨?_, ?_, ?_⟩ <;> decide +kernel

end Signing

end PbftBlock.Sm2Signatures
