import Mathlib.Data.List.Prime
import Mathlib.NumberTheory.LucasPrimality

/-!
# Large primes

A number is prime when it has a primitive root: a residue whose power with the number
below it is one, while no power with that number divided by one of its prime factors
is. The powers are taken by squaring, so that the test can be evaluated.
-/

namespace PbftBlock.Library.Primality

set_option autoImplicit false

def powMod (m : Nat) : (bits : Nat) → (base exponent : Nat) → Nat
  | 0, _, _ => 1 % m
  | bits + 1, base, exponent =>
      let squared := powMod m bits (base * base % m) (exponent / 2)
      if exponent % 2 = 0 then squared else base * squared % m

theorem pow_mod_eq (m bits base exponent : Nat) (fits : exponent < 2 ^ bits) :
    powMod m bits base exponent = base ^ exponent % m := by
  induction bits generalizing base exponent with
  | zero =>
      obtain rfl : exponent = 0 := by simpa using fits
      rfl
  | succ bits induction =>
      have half : exponent / 2 < 2 ^ bits := by
        rw [pow_succ] at fits
        omega
      have squared : powMod m bits (base * base % m) (exponent / 2) =
          base ^ (2 * (exponent / 2)) % m := by
        rw [induction _ _ half, ← Nat.pow_mod, ← pow_two, ← pow_mul]
      rw [powMod, squared]
      split_ifs with even
      · have whole : 2 * (exponent / 2) = exponent := by omega
        rw [whole]
      · have whole : 2 * (exponent / 2) + 1 = exponent := by omega
        rw [Nat.mul_mod_mod, ← pow_succ', whole]

def isRoot (p bits root : Nat) (factors : List Nat) : Bool :=
  1 < p && p < 2 ^ bits && factors.prod == p - 1 && powMod p bits root (p - 1) == 1 &&
    factors.all fun q => powMod p bits root ((p - 1) / q) != 1

theorem cast_pow_eq_one_iff {p : Nat} (several : 1 < p) (root exponent : Nat) :
    (root : ZMod p) ^ exponent = 1 ↔ root ^ exponent % p = 1 := by
  rw [← Nat.cast_pow, ← Nat.cast_one, ZMod.natCast_eq_natCast_iff', Nat.mod_eq_of_lt several]

theorem prime_of_root {p : Nat} (bits root : Nat) (factors : List Nat)
    (primes : ∀ q ∈ factors, q.Prime) (passed : isRoot p bits root factors = true) : p.Prime := by
  simp only [isRoot, Bool.and_eq_true, decide_eq_true_eq, beq_iff_eq, List.all_eq_true,
    bne_iff_ne] at passed
  obtain ⟨⟨⟨⟨several, small⟩, product⟩, whole⟩, parts⟩ := passed
  have fits : ∀ exponent ≤ p - 1, exponent < 2 ^ bits := fun exponent less => by omega
  apply lucas_primality p (root : ZMod p)
  · rw [cast_pow_eq_one_iff several, ← pow_mod_eq p bits root _ (fits _ (Nat.le_refl _))]
    exact whole
  · intro q prime divides
    rw [← product] at divides
    obtain ⟨factor, member, shared⟩ := (Prime.dvd_prod_iff prime.prime).mp divides
    obtain rfl : q = factor := (Nat.prime_dvd_prime_iff_eq prime (primes factor member)).mp shared
    rw [Ne, cast_pow_eq_one_iff several,
      ← pow_mod_eq p bits root _ (fits _ (Nat.div_le_self _ _))]
    exact parts q member

/-- A number with a root for it and the prime factors of the number below. -/
structure Certificate where
  number : Nat
  bits : Nat
  root : Nat
  factors : List Nat

/-- Every factor is known or has a certificate before. -/
def certified : List Nat → List Certificate → Bool
  | _, [] => true
  | known, certificate :: later =>
      certificate.factors.all (fun q => known.contains q) &&
        isRoot certificate.number certificate.bits certificate.root certificate.factors &&
        certified (certificate.number :: known) later

theorem certified_prime {known : List Nat} {certificates : List Certificate}
    (primes : ∀ q ∈ known, q.Prime) (passed : certified known certificates = true) :
    ∀ certificate ∈ certificates, certificate.number.Prime := by
  induction certificates generalizing known with
  | nil => exact List.forall_mem_nil _
  | cons certificate later induction =>
      simp only [certified, Bool.and_eq_true, List.all_eq_true, List.contains_iff_mem] at passed
      obtain ⟨⟨before, root⟩, rest⟩ := passed
      have prime : certificate.number.Prime :=
        prime_of_root _ _ _ (fun q member => primes q (before q member)) root
      rw [List.forall_mem_cons]
      exact ⟨prime, induction (List.forall_mem_cons.mpr ⟨prime, primes⟩) rest⟩

end PbftBlock.Library.Primality
