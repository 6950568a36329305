import PbftBlock.Library.SecretSharing
import PbftBlock.Library.FallibleMethods
import Mathlib.Data.FinEnum
import Mathlib.Data.LawfulXor.Basic
import Mathlib.Data.List.GetD

/-!
# Shamir's secret sharing over bytes

The arithmetic of the package `shamir` and its `Split` and `Combine`. Products are
looked up in tables of logarithms for the generator `0xe5`. Bytes with these
operations are a field.
-/

namespace PbftBlock.Shamir

open PbftBlock.Library.SecretSharing PbftBlock.Library.FallibleMethods

set_option autoImplicit false

def logTable : List UInt8 := [
  0x00, 0xff, 0xc8, 0x08, 0x91, 0x10, 0xd0, 0x36, 0x5a, 0x3e, 0xd8, 0x43, 0x99, 0x77, 0xfe, 0x18,
  0x23, 0x20, 0x07, 0x70, 0xa1, 0x6c, 0x0c, 0x7f, 0x62, 0x8b, 0x40, 0x46, 0xc7, 0x4b, 0xe0, 0x0e,
  0xeb, 0x16, 0xe8, 0xad, 0xcf, 0xcd, 0x39, 0x53, 0x6a, 0x27, 0x35, 0x93, 0xd4, 0x4e, 0x48, 0xc3,
  0x2b, 0x79, 0x54, 0x28, 0x09, 0x78, 0x0f, 0x21, 0x90, 0x87, 0x14, 0x2a, 0xa9, 0x9c, 0xd6, 0x74,
  0xb4, 0x7c, 0xde, 0xed, 0xb1, 0x86, 0x76, 0xa4, 0x98, 0xe2, 0x96, 0x8f, 0x02, 0x32, 0x1c, 0xc1,
  0x33, 0xee, 0xef, 0x81, 0xfd, 0x30, 0x5c, 0x13, 0x9d, 0x29, 0x17, 0xc4, 0x11, 0x44, 0x8c, 0x80,
  0xf3, 0x73, 0x42, 0x1e, 0x1d, 0xb5, 0xf0, 0x12, 0xd1, 0x5b, 0x41, 0xa2, 0xd7, 0x2c, 0xe9, 0xd5,
  0x59, 0xcb, 0x50, 0xa8, 0xdc, 0xfc, 0xf2, 0x56, 0x72, 0xa6, 0x65, 0x2f, 0x9f, 0x9b, 0x3d, 0xba,
  0x7d, 0xc2, 0x45, 0x82, 0xa7, 0x57, 0xb6, 0xa3, 0x7a, 0x75, 0x4f, 0xae, 0x3f, 0x37, 0x6d, 0x47,
  0x61, 0xbe, 0xab, 0xd3, 0x5f, 0xb0, 0x58, 0xaf, 0xca, 0x5e, 0xfa, 0x85, 0xe4, 0x4d, 0x8a, 0x05,
  0xfb, 0x60, 0xb7, 0x7b, 0xb8, 0x26, 0x4a, 0x67, 0xc6, 0x1a, 0xf8, 0x69, 0x25, 0xb3, 0xdb, 0xbd,
  0x66, 0xdd, 0xf1, 0xd2, 0xdf, 0x03, 0x8d, 0x34, 0xd9, 0x92, 0x0d, 0x63, 0x55, 0xaa, 0x49, 0xec,
  0xbc, 0x95, 0x3c, 0x84, 0x0b, 0xf5, 0xe6, 0xe7, 0xe5, 0xac, 0x7e, 0x6e, 0xb9, 0xf9, 0xda, 0x8e,
  0x9a, 0xc9, 0x24, 0xe1, 0x0a, 0x15, 0x6b, 0x3a, 0xa0, 0x51, 0xf4, 0xea, 0xb2, 0x97, 0x9e, 0x5d,
  0x22, 0x88, 0x94, 0xce, 0x19, 0x01, 0x71, 0x4c, 0xa5, 0xe3, 0xc5, 0x31, 0xbb, 0xcc, 0x1f, 0x2d,
  0x3b, 0x52, 0x6f, 0xf6, 0x2e, 0x89, 0xf7, 0xc0, 0x68, 0x1b, 0x64, 0x04, 0x06, 0xbf, 0x83, 0x38]

def expTable : List UInt8 := [
  0x01, 0xe5, 0x4c, 0xb5, 0xfb, 0x9f, 0xfc, 0x12, 0x03, 0x34, 0xd4, 0xc4, 0x16, 0xba, 0x1f, 0x36,
  0x05, 0x5c, 0x67, 0x57, 0x3a, 0xd5, 0x21, 0x5a, 0x0f, 0xe4, 0xa9, 0xf9, 0x4e, 0x64, 0x63, 0xee,
  0x11, 0x37, 0xe0, 0x10, 0xd2, 0xac, 0xa5, 0x29, 0x33, 0x59, 0x3b, 0x30, 0x6d, 0xef, 0xf4, 0x7b,
  0x55, 0xeb, 0x4d, 0x50, 0xb7, 0x2a, 0x07, 0x8d, 0xff, 0x26, 0xd7, 0xf0, 0xc2, 0x7e, 0x09, 0x8c,
  0x1a, 0x6a, 0x62, 0x0b, 0x5d, 0x82, 0x1b, 0x8f, 0x2e, 0xbe, 0xa6, 0x1d, 0xe7, 0x9d, 0x2d, 0x8a,
  0x72, 0xd9, 0xf1, 0x27, 0x32, 0xbc, 0x77, 0x85, 0x96, 0x70, 0x08, 0x69, 0x56, 0xdf, 0x99, 0x94,
  0xa1, 0x90, 0x18, 0xbb, 0xfa, 0x7a, 0xb0, 0xa7, 0xf8, 0xab, 0x28, 0xd6, 0x15, 0x8e, 0xcb, 0xf2,
  0x13, 0xe6, 0x78, 0x61, 0x3f, 0x89, 0x46, 0x0d, 0x35, 0x31, 0x88, 0xa3, 0x41, 0x80, 0xca, 0x17,
  0x5f, 0x53, 0x83, 0xfe, 0xc3, 0x9b, 0x45, 0x39, 0xe1, 0xf5, 0x9e, 0x19, 0x5e, 0xb6, 0xcf, 0x4b,
  0x38, 0x04, 0xb9, 0x2b, 0xe2, 0xc1, 0x4a, 0xdd, 0x48, 0x0c, 0xd0, 0x7d, 0x3d, 0x58, 0xde, 0x7c,
  0xd8, 0x14, 0x6b, 0x87, 0x47, 0xe8, 0x79, 0x84, 0x73, 0x3c, 0xbd, 0x92, 0xc9, 0x23, 0x8b, 0x97,
  0x95, 0x44, 0xdc, 0xad, 0x40, 0x65, 0x86, 0xa2, 0xa4, 0xcc, 0x7f, 0xec, 0xc0, 0xaf, 0x91, 0xfd,
  0xf7, 0x4f, 0x81, 0x2f, 0x5b, 0xea, 0xa8, 0x1c, 0x02, 0xd1, 0x98, 0x71, 0xed, 0x25, 0xe3, 0x24,
  0x06, 0x68, 0xb3, 0x93, 0x2c, 0x6f, 0x3e, 0x6c, 0x0a, 0xb8, 0xce, 0xae, 0x74, 0xb1, 0x42, 0xb4,
  0x1e, 0xd3, 0x49, 0xe9, 0x9c, 0xc8, 0xc6, 0xc7, 0x22, 0x6e, 0xdb, 0x20, 0xbf, 0x43, 0x51, 0x52,
  0x66, 0xb2, 0x76, 0x60, 0xda, 0xc5, 0xf3, 0xf6, 0xaa, 0xcd, 0x9a, 0xa0, 0x75, 0x54, 0x0e, 0x01]

inductive ShamirError where
  | text (msg : String)
  | panicked (msg : String)
deriving DecidableEq

def log (a : UInt8) : Nat := (logTable.getD a.toNat 0).toNat

def exp (i : Nat) : UInt8 := expTable.getD i 0

def add (a b : UInt8) : UInt8 := a ^^^ b

def mult (a b : UInt8) : UInt8 :=
  let sum := (log a + log b) % 255
  let ret := exp sum
  let ret := if a = 0 then 0 else ret
  if b = 0 then 0 else ret

/-- The quotient once the divisor is known not to be zero. The remainder of the source
has the sign of the difference. -/
def quotient (a b : UInt8) : UInt8 :=
  let diff := ((log a : Int) - log b).tmod 255
  let diff := if diff < 0 then diff + 255 else diff
  if a = 0 then 0 else exp diff.toNat

def div (a b : UInt8) : Except ShamirError UInt8 :=
  if b = 0 then .error (.panicked "divide by zero") else .ok (quotient a b)

/-- The coefficients of a polynomial, with the bytes that the random reader has left. The
sizes are bytes; a degree of 255 leaves no coefficient. -/
def makePolynomial (intercept degree : UInt8) (rand : List UInt8) :
    Except ShamirError (List UInt8 × List UInt8) :=
  let count := (degree + 1).toNat
  if count = 0 then .error (.panicked "index out of range [0] with length 0")
  else if rand.length < count - 1 then .error (.text "unexpected EOF")
  else .ok (intercept :: rand.take (count - 1), rand.drop (count - 1))

/-- Horner's method from the last coefficient on; the origin is a special case. -/
def evaluate (coefficients : List UInt8) (x : UInt8) : UInt8 :=
  if x = 0 then coefficients.headD 0
  else
    match coefficients.reverse with
    | [] => 0
    | last :: others => others.foldl (fun out coeff => add (mult out x) coeff) last

def basisAt (xSamples : List UInt8) (x : UInt8) (i : Nat) : Except ShamirError UInt8 :=
  (List.range xSamples.length).foldlM (fun basis j =>
    if i = j then .ok basis
    else do
      let num := add x (xSamples.getD j 0)
      let denom := add (xSamples.getD i 0) (xSamples.getD j 0)
      let term ← div num denom
      .ok (mult basis term)) 1

def interpolatePolynomial (xSamples ySamples : List UInt8) (x : UInt8) :
    Except ShamirError UInt8 :=
  (List.range xSamples.length).foldlM (fun result i => do
    let basis ← basisAt xSamples x i
    let group := mult (ySamples.getD i 0) basis
    .ok (add result group)) 0

def makePolynomials (degree : UInt8) : List UInt8 → List UInt8 →
    Except ShamirError (List (List UInt8))
  | [], _ => .ok []
  | val :: secret, rand =>
      match makePolynomial val degree rand with
      | .error (.panicked msg) => .error (.panicked msg)
      | .error (.text _) => .error (.text "failed to generate polynomial")
      | .ok (p, rand) => (makePolynomials degree secret rand).map (p :: ·)

def coordinates (perm : List Nat) (parts : Nat) : List UInt8 :=
  (perm.take parts).map fun v => UInt8.ofNat v + 1

/-- `Split` with the permutation of 255 numbers and the random bytes it draws. A share is
the values of the polynomials and then its coordinate. -/
def split (secret : List UInt8) (parts threshold : Int) (perm : List Nat) (rand : List UInt8) :
    Except ShamirError (List (List UInt8)) :=
  if parts < threshold then .error (.text "parts cannot be less than threshold")
  else if 255 < parts then .error (.text "parts cannot exceed 255")
  else if threshold < 2 then .error (.text "threshold must be at least 2")
  else if 255 < threshold then .error (.text "threshold cannot exceed 255")
  else if secret.isEmpty then .error (.text "cannot split an empty secret")
  else
    (makePolynomials (UInt8.ofNat (threshold - 1).toNat) secret rand).map fun ps =>
      (coordinates perm parts.toNat).map fun x => ps.map (evaluate · x) ++ [x]

def xSamples (last : Nat) : List UInt8 → List (List UInt8) → Except ShamirError (List UInt8)
  | _, [] => .ok []
  | seen, part :: parts =>
      let samp := part.getD last 0
      if samp ∈ seen then .error (.text "duplicate part detected")
      else (xSamples last (samp :: seen) parts).map (samp :: ·)

def combine (parts : List (List UInt8)) : Except ShamirError (List UInt8) :=
  if parts.length < 2 then
    .error (.text "less than two parts cannot be used to reconstruct the secret")
  else
    let firstPartLen := (parts.headD []).length
    if firstPartLen < 2 then .error (.text "parts must be at least two bytes")
    else if ∃ part ∈ parts, part.length ≠ firstPartLen then
      .error (.text "all parts must be the same length")
    else do
      let xs ← xSamples (firstPartLen - 1) [] parts
      (List.range (firstPartLen - 1)).mapM fun idx =>
        interpolatePolynomial xs (parts.map (·.getD idx 0)) 0

section Tables

/-- The table as one number, whose digits are its entries. -/
def packed (table : List UInt8) : Nat := table.foldr (fun b n => n * 256 + b.toNat) 0

theorem packed_digit (table : List UInt8) (i : Nat) :
    (table.getD i 0).toNat = packed table / 256 ^ i % 256 := by
  induction table generalizing i with
  | nil => simp [packed]
  | cons b table induction =>
      have small := b.toNat_lt
      have digits : packed (b :: table) = packed table * 256 + b.toNat := rfl
      rw [digits]
      cases i with
      | zero =>
          rw [List.getD_cons_zero, pow_zero, Nat.div_one]
          omega
      | succ i =>
          have shifted : (packed table * 256 + b.toNat) / 256 = packed table := by omega
          rw [List.getD_cons_succ, induction, pow_succ', ← Nat.div_div_eq_div_mul, shifted]

theorem log_digit (a : UInt8) : log a = packed logTable / 256 ^ a.toNat % 256 := packed_digit _ _

theorem exp_digit (i : Nat) : (exp i).toNat = packed expTable / 256 ^ i % 256 := packed_digit _ _

theorem log_exp {i : Nat} (small : i < 255) : log (exp i) % 255 = i := by
  have entries : ∀ i < 255,
      packed logTable / 256 ^ (packed expTable / 256 ^ i % 256) % 256 % 255 = i := by
    decide +kernel
  rw [log_digit, exp_digit]
  exact entries i small

theorem exp_log {a : UInt8} (nonzero : a ≠ 0) : exp (log a % 255) = a := by
  have entries : ∀ a < 256, a ≠ 0 →
      packed expTable / 256 ^ (packed logTable / 256 ^ a % 256 % 255) % 256 = a := by
    decide +kernel
  apply UInt8.toNat.inj
  rw [exp_digit, log_digit]
  apply entries _ a.toNat_lt
  intro zero
  exact nonzero (UInt8.toNat.inj zero)

theorem exp_ne_zero {i : Nat} (small : i < 255) : exp i ≠ 0 := by
  intro zero
  have index := log_exp small
  rw [zero] at index
  have first : i = 0 := index.symm
  rw [first] at zero
  exact absurd zero (by decide)

end Tables

section Products

variable {a b c : UInt8}

theorem mult_nonzero (left : a ≠ 0) (right : b ≠ 0) : mult a b = exp ((log a + log b) % 255) := by
  simp only [mult, if_neg left, if_neg right]

theorem mult_zero (a : UInt8) : mult a 0 = 0 := by
  rw [mult]
  exact if_pos rfl

theorem mult_comm (a b : UInt8) : mult a b = mult b a := by
  by_cases left : a = 0
  · by_cases right : b = 0
    · rw [left, right]
    · simp [mult, left]
  · by_cases right : b = 0
    · simp [mult, right]
    · rw [mult_nonzero left right, mult_nonzero right left, Nat.add_comm]

theorem zero_mult (a : UInt8) : mult 0 a = 0 := by rw [mult_comm, mult_zero]

theorem mult_ne_zero (left : a ≠ 0) (right : b ≠ 0) : mult a b ≠ 0 := by
  rw [mult_nonzero left right]
  exact exp_ne_zero (Nat.mod_lt _ (by decide))

theorem log_mult (left : a ≠ 0) (right : b ≠ 0) :
    log (mult a b) % 255 = (log a + log b) % 255 := by
  rw [mult_nonzero left right, log_exp (Nat.mod_lt _ (by decide))]

theorem eq_of_log (left : a ≠ 0) (right : b ≠ 0) (same : log a % 255 = log b % 255) : a = b := by
  rw [← exp_log left, same, exp_log right]

theorem mult_one (a : UInt8) : mult a 1 = a := by
  by_cases zero : a = 0
  · rw [zero, zero_mult]
  · have unit : log 1 = 255 := by decide
    have whole := exp_log zero
    rw [mult_nonzero zero (by decide), unit, Nat.add_mod_right, whole]

theorem mult_assoc (a b c : UInt8) : mult (mult a b) c = mult a (mult b c) := by
  by_cases first : a = 0
  · rw [first, zero_mult, zero_mult, zero_mult]
  by_cases second : b = 0
  · rw [second, mult_zero, zero_mult, mult_zero]
  by_cases third : c = 0
  · rw [third, mult_zero, mult_zero, mult_zero]
  have left := mult_ne_zero first second
  have right := mult_ne_zero second third
  apply eq_of_log (mult_ne_zero left third) (mult_ne_zero first right)
  have front := log_mult first second
  have back := log_mult second third
  rw [log_mult left third, log_mult first right]
  omega

/-- A function of bytes that is put together from the bits. -/
def byBits (g : Nat → Nat) (b : Nat) : Nat :=
  (List.range 8).foldr (fun k n => (if b.testBit k then g (2 ^ k) else 0) ^^^ n) 0

theorem by_bits_xor (g : Nat → Nat) (b c : Nat) :
    byBits g (b ^^^ c) = byBits g b ^^^ byBits g c := by
  have bit : ∀ k, (if (b ^^^ c).testBit k then g (2 ^ k) else 0) =
      (if b.testBit k then g (2 ^ k) else 0) ^^^ (if c.testBit k then g (2 ^ k) else 0) := by
    intro k
    rw [Nat.testBit_xor]
    cases b.testBit k <;> cases c.testBit k <;> simp
  unfold byBits
  induction List.range 8 with
  | nil => simp
  | cons k ks induction =>
      rw [List.foldr_cons, List.foldr_cons, List.foldr_cons, induction, bit]
      ac_rfl

/-- The product with the generator on the digits of the tables. -/
def generated (b : Nat) : Nat :=
  if b = 0 then 0 else packed expTable / 256 ^ ((1 + packed logTable / 256 ^ b % 256) % 255) % 256

theorem generator_digit (b : UInt8) : (mult 0xe5 b).toNat = generated b.toNat := by
  have one : log 0xe5 = 1 := by decide
  unfold generated
  by_cases zero : b = 0
  · rw [zero]
    rfl
  · have some : b.toNat ≠ 0 := fun none => zero (UInt8.toNat.inj none)
    rw [mult_nonzero (by decide) zero, if_neg some, exp_digit, one, log_digit]

theorem generator_add (b c : UInt8) : mult 0xe5 (add b c) = add (mult 0xe5 b) (mult 0xe5 c) := by
  have linear : ∀ b < 256, generated b = byBits generated b := by decide +kernel
  apply UInt8.toNat.inj
  simp only [add, UInt8.toNat_xor, generator_digit]
  rw [linear _ b.toNat_lt, linear _ c.toNat_lt, ← by_bits_xor, ← UInt8.toNat_xor,
    linear _ (b ^^^ c).toNat_lt]

/-- Every product is one of repeated products with the generator. -/
theorem exp_mult_add (i : Nat) (small : i < 255) (b c : UInt8) :
    mult (exp i) (add b c) = add (mult (exp i) b) (mult (exp i) c) := by
  induction i with
  | zero =>
      have unit : exp 0 = 1 := by decide
      rw [unit, mult_comm 1, mult_comm 1, mult_comm 1, mult_one, mult_one, mult_one]
  | succ i induction =>
      have before : i < 255 := by omega
      have step : exp (i + 1) = mult 0xe5 (exp i) := by
        apply eq_of_log (exp_ne_zero small) (mult_ne_zero (by decide) (exp_ne_zero before))
        have one : log 0xe5 = 1 := by decide
        have index := log_exp before
        rw [log_exp small, log_mult (by decide) (exp_ne_zero before), one]
        omega
      rw [step, mult_assoc, mult_assoc, mult_assoc, induction before, generator_add]

theorem mult_add (a b c : UInt8) : mult a (add b c) = add (mult a b) (mult a c) := by
  by_cases zero : a = 0
  · rw [zero, zero_mult, zero_mult, zero_mult]
    rfl
  · rw [← exp_log zero]
    exact exp_mult_add _ (Nat.mod_lt _ (by decide)) b c

end Products

section Quotients

variable {a b : UInt8}

theorem corrected_remainder (x : Int) :
    (if x.tmod 255 < 0 then x.tmod 255 + 255 else x.tmod 255) = x % 255 := by
  rcases Int.le_total 0 x with above | below
  · rw [Int.tmod_eq_emod_of_nonneg above, if_neg (by omega)]
  · obtain ⟨y, rfl⟩ : ∃ y, x = -y := ⟨-x, by omega⟩
    rw [Int.neg_tmod, Int.tmod_eq_emod_of_nonneg (by omega)]
    split_ifs <;> omega

theorem quotient_nonzero (nonzero : a ≠ 0) :
    quotient a b = exp (((log a : Int) - log b) % 255).toNat := by
  simp only [quotient, corrected_remainder, if_neg nonzero]

theorem quotient_mult (a : UInt8) (nonzero : b ≠ 0) : mult (quotient a b) b = a := by
  by_cases zero : a = 0
  · rw [zero, quotient]
    simp [zero_mult]
  · have small : (((log a : Int) - log b) % 255).toNat < 255 := by omega
    have some : quotient a b ≠ 0 := by
      rw [quotient_nonzero zero]
      exact exp_ne_zero small
    apply eq_of_log (mult_ne_zero some nonzero) zero
    have index := log_exp small
    rw [← quotient_nonzero zero] at index
    rw [log_mult some nonzero]
    omega

end Quotients

structure Gf where
  byte : UInt8
deriving DecidableEq

namespace Gf

instance : Zero Gf := ⟨⟨0⟩⟩

instance : One Gf := ⟨⟨1⟩⟩

instance : Add Gf := ⟨fun a b => ⟨add a.byte b.byte⟩⟩

instance : Neg Gf := ⟨fun a => a⟩

instance : Mul Gf := ⟨fun a b => ⟨mult a.byte b.byte⟩⟩

instance : Inv Gf := ⟨fun a => if a.byte = 0 then 0 else ⟨quotient 1 a.byte⟩⟩

theorem byte_ne_zero {a : Gf} (nonzero : a ≠ 0) : a.byte ≠ 0 :=
  fun zero => nonzero (congrArg Gf.mk zero)

instance : CommRing Gf where
  nsmul := nsmulRec
  zsmul := zsmulRec
  add_assoc a b c := congrArg mk (UInt8.xor_assoc a.byte b.byte c.byte)
  zero_add _ := congrArg mk UInt8.zero_xor
  add_zero _ := congrArg mk UInt8.xor_zero
  add_comm a b := congrArg mk (UInt8.xor_comm a.byte b.byte)
  neg_add_cancel _ := congrArg mk UInt8.xor_self
  mul_assoc a b c := congrArg mk (mult_assoc a.byte b.byte c.byte)
  mul_comm a b := congrArg mk (mult_comm a.byte b.byte)
  one_mul a := congrArg mk ((mult_comm 1 a.byte).trans (mult_one a.byte))
  mul_one a := congrArg mk (mult_one a.byte)
  zero_mul a := congrArg mk (zero_mult a.byte)
  mul_zero a := congrArg mk (mult_zero a.byte)
  left_distrib a b c := congrArg mk (mult_add a.byte b.byte c.byte)
  right_distrib a b c := by
    have swapped : mult (add a.byte b.byte) c.byte =
        add (mult a.byte c.byte) (mult b.byte c.byte) := by
      rw [mult_comm, mult_add, mult_comm c.byte, mult_comm c.byte]
    exact congrArg mk swapped

instance : Field Gf where
  exists_pair_ne := ⟨0, 1, by decide⟩
  mul_inv_cancel a nonzero := by
    have some := byte_ne_zero nonzero
    have inverse : a⁻¹ = ⟨quotient 1 a.byte⟩ := if_neg some
    rw [inverse, mul_comm]
    exact congrArg mk (quotient_mult 1 some)
  inv_zero := if_pos rfl
  nnqsmul := _
  qsmul := _

instance : Finite Gf := Finite.of_injective byte fun _ _ same => congrArg mk same

theorem mk_add (a b : UInt8) : (⟨add a b⟩ : Gf) = ⟨a⟩ + ⟨b⟩ := rfl

theorem mk_mult (a b : UInt8) : (⟨mult a b⟩ : Gf) = ⟨a⟩ * ⟨b⟩ := rfl

theorem mk_quotient (a : UInt8) {b : UInt8} (nonzero : b ≠ 0) :
    (⟨quotient a b⟩ : Gf) = ⟨a⟩ / ⟨b⟩ := by
  have some : (⟨b⟩ : Gf) ≠ 0 := fun zero => nonzero (congrArg byte zero)
  apply mul_right_cancel₀ some
  rw [div_mul_cancel₀ _ some]
  exact congrArg mk (quotient_mult a nonzero)

end Gf

section Polynomials

noncomputable def toPolynomial (coefficients : List UInt8) : Polynomial Gf :=
  ofCoefficients (coefficients.map Gf.mk)

theorem horner_eval (front : List UInt8) (last x : UInt8) :
    (⟨front.foldr (fun coeff out => add (mult out x) coeff) last⟩ : Gf) =
      (toPolynomial (front ++ [last])).eval ⟨x⟩ := by
  induction front with
  | nil =>
      have single : (toPolynomial [last]).eval (⟨x⟩ : Gf) = ⟨last⟩ + ⟨x⟩ * 0 := by
        simp [toPolynomial, ofCoefficients]
      rw [List.nil_append, single, mul_zero, add_zero]
      rfl
  | cons c front induction =>
      rw [List.foldr_cons, Gf.mk_add, Gf.mk_mult, induction, mul_comm, add_comm]
      exact (eval_of_coefficients_cons _ _ _).symm

theorem evaluate_eval {coefficients : List UInt8} (some : coefficients ≠ []) (x : UInt8) :
    (⟨evaluate coefficients x⟩ : Gf) = (toPolynomial coefficients).eval ⟨x⟩ := by
  unfold evaluate
  split_ifs with origin
  · obtain ⟨c, cs, rfl⟩ := List.exists_cons_of_ne_nil some
    have value := eval_of_coefficients_cons (⟨c⟩ : Gf) 0 (cs.map Gf.mk)
    rw [zero_mul, add_zero] at value
    rw [origin]
    exact value.symm
  · obtain ⟨front, last, rfl⟩ := (List.eq_nil_or_concat coefficients).resolve_left some
    rw [List.concat_eq_append, List.reverse_append]
    change (⟨front.reverse.foldl _ last⟩ : Gf) = _
    rw [List.foldl_reverse]
    exact horner_eval front last x

variable {xs ys : List UInt8} {x : UInt8}

def sample (xs : List UInt8) (i : Nat) : Gf := ⟨xs.getD i 0⟩

theorem samples_distinct (distinct : xs.Nodup) :
    Set.InjOn (sample xs) (Finset.range xs.length) := by
  intro i first j second same
  rw [Finset.coe_range, Set.mem_Iio] at first second
  have bytes : xs.getD i 0 = xs.getD j 0 := congrArg Gf.byte same
  rw [List.getD_eq_getElem _ _ first, List.getD_eq_getElem _ _ second] at bytes
  exact (List.Nodup.getElem_inj_iff distinct).mp bytes

/-- The factor of the sample `j` in the basis polynomial of the sample `i`. -/
def factor (xs : List UInt8) (x : UInt8) (i j : Nat) : Gf :=
  if i = j then 1 else (⟨x⟩ - sample xs j) / (sample xs i - sample xs j)

theorem basis_at_ok (distinct : xs.Nodup) (x : UInt8) {i : Nat} (inside : i < xs.length) :
    ∃ basis, basisAt xs x i = .ok basis ∧
      (⟨basis⟩ : Gf) = ∏ j ∈ Finset.range xs.length, factor xs x i j := by
  unfold basisAt
  apply range_loop_ok _ fun m basis => (⟨basis⟩ : Gf) = ∏ j ∈ Finset.range m, factor xs x i j
  · rfl
  · intro j less basis product
    rw [Finset.prod_range_succ, ← product, factor]
    by_cases same : i = j
    · rw [if_pos same, if_pos same, mul_one]
      exact ⟨basis, rfl, rfl⟩
    · have denom : add (xs.getD i 0) (xs.getD j 0) ≠ 0 := by
        intro zero
        have equal : sample xs i - sample xs j = 0 := congrArg Gf.mk zero
        exact same (samples_distinct distinct (by simpa using inside) (by simpa using less)
          (sub_eq_zero.mp equal))
      have term : div (add x (xs.getD j 0)) (add (xs.getD i 0) (xs.getD j 0)) =
          .ok (quotient (add x (xs.getD j 0)) (add (xs.getD i 0) (xs.getD j 0))) := if_neg denom
      rw [if_neg same, if_neg same]
      dsimp only
      rw [term]
      refine ⟨_, rfl, ?_⟩
      rw [Gf.mk_mult, Gf.mk_quotient _ denom]
      rfl

/-- Interpolation through different samples does not divide by zero. -/
theorem interpolate_ok (distinct : xs.Nodup) (ys : List UInt8) (x : UInt8) :
    ∃ value, interpolatePolynomial xs ys x = .ok value ∧
      (⟨value⟩ : Gf) = ∑ i ∈ Finset.range xs.length,
        sample ys i * ∏ j ∈ Finset.range xs.length, factor xs x i j := by
  unfold interpolatePolynomial
  apply range_loop_ok _ fun m result => (⟨result⟩ : Gf) = ∑ i ∈ Finset.range m,
    sample ys i * ∏ j ∈ Finset.range xs.length, factor xs x i j
  · rfl
  · intro i less result total
    obtain ⟨basis, ran, product⟩ := basis_at_ok distinct x less
    rw [ran, Finset.sum_range_succ, ← total, ← product]
    exact ⟨_, rfl, rfl⟩

/-- Samples of a polynomial with no more coefficients than there are samples give its
values everywhere. -/
theorem interpolate_evaluate {coefficients : List UInt8} (some : coefficients ≠ [])
    (distinct : xs.Nodup) (enough : coefficients.length ≤ xs.length) (x : UInt8) :
    interpolatePolynomial xs (xs.map (evaluate coefficients)) x = .ok (evaluate coefficients x) := by
  obtain ⟨value, ran, total⟩ := interpolate_ok distinct (xs.map (evaluate coefficients)) x
  have degree : (toPolynomial coefficients).degree < xs.length := by
    have bound := degree_of_coefficients (coefficients.map Gf.mk)
    rw [List.length_map] at bound
    exact bound.trans_le (by exact_mod_cast enough)
  have values : ∀ i ∈ Finset.range xs.length, sample (xs.map (evaluate coefficients)) i =
      (toPolynomial coefficients).eval (sample xs i) := by
    intro i member
    have inside := Finset.mem_range.mp member
    have mapped : i < (xs.map (evaluate coefficients)).length := by rwa [List.length_map]
    rw [sample, sample, List.getD_eq_getElem _ _ mapped, List.getElem_map,
      List.getD_eq_getElem _ _ inside]
    exact evaluate_eval some _
  have sum : (⟨value⟩ : Gf) = (toPolynomial coefficients).eval ⟨x⟩ := by
    rw [total, ← interpolation_eval (samples_distinct distinct) degree]
    apply Finset.sum_congr rfl
    intro i member
    rw [values i member]
    rfl
  rw [← evaluate_eval some] at sum
  have same : value = evaluate coefficients x := congrArg Gf.byte sum
  rw [ran, same]

end Polynomials

section Shares

variable {secret rand : List UInt8} {parts threshold : Int} {perm : List Nat}

/-- The polynomials of a secret: each takes `degree` of the random bytes. -/
def polynomials (degree : Nat) : List UInt8 → List UInt8 → List (List UInt8)
  | [], _ => []
  | val :: secret, rand => (val :: rand.take degree) :: polynomials degree secret (rand.drop degree)

theorem make_polynomial_ok {degree : UInt8} (intercept : UInt8) (small : degree.toNat < 255)
    (enough : degree.toNat ≤ rand.length) :
    makePolynomial intercept degree rand =
      .ok (intercept :: rand.take degree.toNat, rand.drop degree.toNat) := by
  have count : (degree + 1).toNat = degree.toNat + 1 := by
    rw [UInt8.toNat_add]
    change (degree.toNat + 1) % 256 = _
    omega
  unfold makePolynomial
  dsimp only
  rw [count, if_neg (Nat.succ_ne_zero _), Nat.add_sub_cancel, if_neg (by omega)]

theorem make_polynomials_ok (degree : UInt8) (secret rand : List UInt8)
    (small : degree.toNat < 255) (enough : secret.length * degree.toNat ≤ rand.length) :
    makePolynomials degree secret rand = .ok (polynomials degree.toNat secret rand) := by
  induction secret generalizing rand with
  | nil => rfl
  | cons val secret induction =>
      rw [List.length_cons, Nat.succ_mul] at enough
      have later := induction (rand.drop degree.toNat) (by rw [List.length_drop]; omega)
      rw [makePolynomials, make_polynomial_ok val small (by omega)]
      dsimp only
      rw [later]
      rfl

theorem polynomials_length (degree : Nat) (secret rand : List UInt8) :
    (polynomials degree secret rand).length = secret.length := by
  induction secret generalizing rand with
  | nil => rfl
  | cons val secret induction => rw [polynomials, List.length_cons, induction, List.length_cons]

theorem polynomials_origin (degree : Nat) (secret rand : List UInt8) :
    (polynomials degree secret rand).map (·.headD 0) = secret := by
  induction secret generalizing rand with
  | nil => rfl
  | cons val secret induction => rw [polynomials, List.map_cons, induction, List.headD_cons]

theorem polynomials_sizes (degree : Nat) (secret rand : List UInt8) :
    ∀ p ∈ polynomials degree secret rand, p ≠ [] ∧ p.length ≤ degree + 1 := by
  induction secret generalizing rand with
  | nil => exact fun _ member => absurd member List.not_mem_nil
  | cons val secret induction =>
      rw [polynomials, List.forall_mem_cons]
      refine ⟨⟨List.cons_ne_nil _ _, ?_⟩, induction _⟩
      rw [List.length_cons, List.length_take]
      omega

def share (ps : List (List UInt8)) (x : UInt8) : List UInt8 := ps.map (evaluate · x) ++ [x]

/-- What a run of `Split` starts from: arguments in range, a permutation, and
enough random bytes. -/
structure Sharing (secret : List UInt8) (parts threshold : Int) (perm : List Nat)
    (rand : List UInt8) : Prop where
  some : secret ≠ []
  least : 2 ≤ threshold
  order : threshold ≤ parts
  most : parts ≤ 255
  permuted : perm.Perm (List.range 255)
  random : secret.length * (threshold - 1).toNat ≤ rand.length

theorem split_ok (sharing : Sharing secret parts threshold perm rand) :
    split secret parts threshold perm rand =
      .ok ((coordinates perm parts.toNat).map
        (share (polynomials (threshold - 1).toNat secret rand))) := by
  obtain ⟨some, least, order, most, _, random⟩ := sharing
  have degree : (UInt8.ofNat (threshold - 1).toNat).toNat = (threshold - 1).toNat := by
    rw [UInt8.toNat_ofNat']
    omega
  have made := make_polynomials_ok (UInt8.ofNat (threshold - 1).toNat) secret rand (by omega)
    (by rw [degree]; exact random)
  unfold split
  rw [if_neg (by omega), if_neg (by omega), if_neg (by omega), if_neg (by omega),
    if_neg (by simpa using some), made, degree]
  rfl

theorem coordinate_nat {v : Nat} (small : v < 255) : (UInt8.ofNat v + 1).toNat = v + 1 := by
  rw [UInt8.toNat_add, UInt8.toNat_ofNat']
  change (v % 256 + 1) % 256 = v + 1
  omega

theorem coordinates_facts (permuted : perm.Perm (List.range 255)) {count : Nat}
    (most : count ≤ 255) :
    (coordinates perm count).length = count ∧ (coordinates perm count).Nodup ∧
      0 ∉ coordinates perm count := by
  have small : ∀ v ∈ perm.take count, v < 255 := fun v member =>
    List.mem_range.mp (permuted.mem_iff.mp (List.mem_of_mem_take member))
  refine ⟨?_, ?_, ?_⟩
  · rw [coordinates, List.length_map, List.length_take, permuted.length_eq, List.length_range]
    omega
  · apply List.Nodup.map_on
    · intro v first w second same
      have numbers := congrArg UInt8.toNat same
      rw [coordinate_nat (small v first), coordinate_nat (small w second)] at numbers
      omega
    · exact (List.take_sublist count perm).nodup (permuted.nodup_iff.mpr List.nodup_range)
  · intro member
    obtain ⟨v, inside, zero⟩ := List.mem_map.mp member
    have number := congrArg UInt8.toNat zero
    rw [coordinate_nat (small v inside)] at number
    cases number

theorem x_samples_ok (last : Nat) (seen : List UInt8) (parts : List (List UInt8))
    (distinct : (parts.map (·.getD last 0)).Nodup)
    (fresh : ∀ part ∈ parts, part.getD last 0 ∉ seen) :
    xSamples last seen parts = .ok (parts.map (·.getD last 0)) := by
  induction parts generalizing seen with
  | nil => rfl
  | cons part parts induction =>
      rw [List.map_cons, List.nodup_cons] at distinct
      obtain ⟨first, others⟩ := List.forall_mem_cons.mp fresh
      have later := induction (part.getD last 0 :: seen) distinct.2 (by
        intro part' member
        rw [List.mem_cons, not_or]
        refine ⟨?_, others part' member⟩
        intro same
        exact distinct.1 (List.mem_map.mpr ⟨part', member, same⟩))
      rw [xSamples, if_neg first, later]
      rfl

theorem share_length (ps : List (List UInt8)) (x : UInt8) :
    (share ps x).length = ps.length + 1 := by
  rw [share, List.length_append, List.length_map, List.length_singleton]

theorem share_coordinate (ps : List (List UInt8)) (x : UInt8) :
    (share ps x).getD ps.length 0 = x := by
  simp [share]

theorem share_value (ps : List (List UInt8)) (x : UInt8) {idx : Nat} (inside : idx < ps.length) :
    (share ps x).getD idx 0 = evaluate (ps.get ⟨idx, inside⟩) x := by
  have mapped : idx < (ps.map (evaluate · x)).length := by rwa [List.length_map]
  rw [share, List.getD_append _ _ _ _ mapped, List.getD_eq_getElem _ _ mapped, List.getElem_map]
  rfl

/-- Shares at different coordinates, as many as the polynomials have coefficients. -/
theorem combine_shares {ps : List (List UInt8)} {xs : List UInt8} {degree : Nat} (some : ps ≠ [])
    (sizes : ∀ p ∈ ps, p ≠ [] ∧ p.length ≤ degree + 1) (distinct : xs.Nodup)
    (enough : degree + 1 ≤ xs.length) (several : 1 ≤ degree) :
    combine (xs.map (share ps)) = .ok (ps.map (·.headD 0)) := by
  have positive := List.length_pos_iff.mpr some
  have front : ((xs.map (share ps)).headD []).length = ps.length + 1 := by
    cases xs with
    | nil =>
        rw [List.length_nil] at enough
        omega
    | cons x xs => exact share_length ps x
  have same : ¬∃ part ∈ xs.map (share ps), part.length ≠ ps.length + 1 := by
    rintro ⟨part, member, other⟩
    obtain ⟨x, _, rfl⟩ := List.mem_map.mp member
    exact other (share_length ps x)
  have coordinates : (xs.map (share ps)).map (·.getD ps.length 0) = xs := by
    rw [List.map_map]
    exact (List.map_congr_left fun x _ => share_coordinate ps x).trans (List.map_id xs)
  have samples := x_samples_ok ps.length [] (xs.map (share ps)) (by rwa [coordinates])
    fun _ _ => List.not_mem_nil
  rw [coordinates] at samples
  unfold combine
  dsimp only
  rw [List.length_map, if_neg (by omega), front, if_neg (by omega), if_neg same,
    Nat.add_sub_cancel, samples]
  change (List.range ps.length).mapM _ = _
  have values : (List.range ps.length).map (fun idx => (ps.getD idx []).headD 0) =
      ps.map (·.headD 0) := by
    apply List.ext_getElem
    · simp
    · intro idx first second
      have inside : idx < ps.length := by simpa using first
      rw [List.getElem_map, List.getElem_map, List.getElem_range, List.getD_eq_getElem _ _ inside]
  rw [← values]
  apply map_loop_ok
  intro idx member
  have inside := List.mem_range.mp member
  have column : (xs.map (share ps)).map (·.getD idx 0) =
      xs.map (evaluate (ps.get ⟨idx, inside⟩)) := by
    rw [List.map_map]
    exact List.map_congr_left fun x _ => share_value ps x inside
  obtain ⟨nonempty, size⟩ := sizes _ (ps.get_mem ⟨idx, inside⟩)
  rw [column, interpolate_evaluate nonempty distinct (by omega), List.getD_eq_getElem _ _ inside]
  rfl

/-- `Combine` on any selection of different shares, in any order. -/
theorem combine_selection {ps chosen : List (List UInt8)} {xs : List UInt8} {degree : Nat}
    (some : ps ≠ []) (sizes : ∀ p ∈ ps, p ≠ [] ∧ p.length ≤ degree + 1)
    (taken : ∀ part ∈ chosen, part ∈ xs.map (share ps)) (distinct : chosen.Nodup)
    (enough : degree + 1 ≤ chosen.length) (several : 1 ≤ degree) :
    combine chosen = .ok (ps.map (·.headD 0)) := by
  have rebuilt : (chosen.map (·.getD ps.length 0)).map (share ps) = chosen := by
    rw [List.map_map]
    refine (List.map_congr_left ?_).trans (List.map_id chosen)
    intro part member
    obtain ⟨x, _, rfl⟩ := List.mem_map.mp (taken part member)
    exact congrArg (share ps) (share_coordinate ps x)
  rw [← rebuilt] at distinct ⊢
  exact combine_shares some sizes distinct.of_map (by rwa [List.length_map]) several

end Shares

end PbftBlock.Shamir
