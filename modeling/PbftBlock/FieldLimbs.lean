import PbftBlock.CurveAddition
import PbftBlock.Library.Words

/-!
# The limbs of a field element

The functions of `p256.go` below the field arithmetic that `CurveAddition` takes as
exact: nine limbs of 29 and 28 bits by turns, sums with delayed carries, and products
that are brought back by eliminating one limb after the other. A limb may use one bit
more than its place has.
-/

namespace PbftBlock.FieldLimbs

open PbftBlock.Library.Words
open PbftBlock.CurveAddition (p)

set_option autoImplicit false

def bottom28Bits : UInt32 := 0xFFFFFFF

def bottom29Bits : UInt32 := 0x1FFFFFFF

def sm2P256Zero31 : List UInt32 :=
  [0x7FFFFFF8, 0x3FFFFFFC, 0x800003FC, 0x3FFFDFFC, 0x7FFFFFFC, 0x3FFFFFFC, 0x7FFFFFFC, 0x37FFFFFC,
    0x7FFFFFFC]

def sm2P256Carry : List UInt32 := [
  0x0, 0x0, 0x0, 0x0, 0x0, 0x0, 0x0, 0x0, 0x0,
  0x2, 0x0, 0x1FFFFF00, 0x7FF, 0x0, 0x0, 0x0, 0x2000000, 0x0,
  0x4, 0x0, 0x1FFFFE00, 0xFFF, 0x0, 0x0, 0x0, 0x4000000, 0x0,
  0x6, 0x0, 0x1FFFFD00, 0x17FF, 0x0, 0x0, 0x0, 0x6000000, 0x0,
  0x8, 0x0, 0x1FFFFC00, 0x1FFF, 0x0, 0x0, 0x0, 0x8000000, 0x0,
  0xA, 0x0, 0x1FFFFB00, 0x27FF, 0x0, 0x0, 0x0, 0xA000000, 0x0,
  0xC, 0x0, 0x1FFFFA00, 0x2FFF, 0x0, 0x0, 0x0, 0xC000000, 0x0,
  0xE, 0x0, 0x1FFFF900, 0x37FF, 0x0, 0x0, 0x0, 0xE000000, 0x0]

def sm2P256ReduceCarry (a : List UInt32) (carry : UInt32) : List UInt32 :=
  let entry (k : ℕ) := sm2P256Carry.getD ((carry * 9).toNat + k) 0
  (((a.modify 0 (· + entry 0)).modify 2 (· + entry 2)).modify 3 (· + entry 3)).modify 7
    (· + entry 7)

/-- The bits of a place: 29 and 28 by turns. -/
def width (wide : Bool) : ℕ := if wide then 29 else 28

def bottomBits (wide : Bool) : UInt32 := if wide then bottom29Bits else bottom28Bits

/-- The loop that `sm2P256Add`, `sm2P256Sub` and both ends of `sm2P256ReduceDegree` run
over sums of words: what does not fit the place of a limb is carried to the next one. -/
def carryChain : (wide : Bool) → (carry : UInt32) → List UInt32 → List UInt32 × UInt32
  | _, carry, [] => ([], carry)
  | wide, carry, word :: words =>
      let total := word + carry
      let rest := carryChain (!wide) (total >>> UInt32.ofNat (width wide)) words
      ((total &&& bottomBits wide) :: rest.1, rest.2)

/-- The chain over nine words, and `sm2P256ReduceCarry` with the last carry. -/
def settle (words : List UInt32) : List UInt32 :=
  let chain := carryChain true 0 words
  sm2P256ReduceCarry chain.1 chain.2

def addWords (a b : List UInt32) : List UInt32 := List.zipWith (· + ·) a b

def subWords (a b : List UInt32) : List UInt32 :=
  List.zipWith (· + ·) (List.zipWith (· - ·) a b) sm2P256Zero31

def sm2P256Add (a b : List UInt32) : List UInt32 := settle (addWords a b)

def sm2P256Sub (a b : List UInt32) : List UInt32 := settle (subWords a b)

/-! ## Products -/

def term (a b : UInt32) (shift : ℕ) : UInt64 := a.toUInt64 * (b.toUInt64 <<< UInt64.ofNat shift)

section Sums

variable {R : Type} [Add R] (term : UInt32 → UInt32 → ℕ → R)

/-- The sums of `sm2P256Mul`, for any meaning of their terms. -/
def mulSums (a b : List UInt32) : List R :=
  let t (i j shift : ℕ) : R := term (a.getD i 0) (b.getD j 0) shift
  [t 0 0 0,
    t 0 1 0 + t 1 0 0,
    t 0 2 0 + t 1 1 1 + t 2 0 0,
    t 0 3 0 + t 1 2 0 + t 2 1 0 + t 3 0 0,
    t 0 4 0 + t 1 3 1 + t 2 2 0 + t 3 1 1 + t 4 0 0,
    t 0 5 0 + t 1 4 0 + t 2 3 0 + t 3 2 0 + t 4 1 0 + t 5 0 0,
    t 0 6 0 + t 1 5 1 + t 2 4 0 + t 3 3 1 + t 4 2 0 + t 5 1 1 + t 6 0 0,
    t 0 7 0 + t 1 6 0 + t 2 5 0 + t 3 4 0 + t 4 3 0 + t 5 2 0 + t 6 1 0 + t 7 0 0,
    t 0 8 0 + t 1 7 1 + t 2 6 0 + t 3 5 1 + t 4 4 0 + t 5 3 1 + t 6 2 0 + t 7 1 1 + t 8 0 0,
    t 1 8 0 + t 2 7 0 + t 3 6 0 + t 4 5 0 + t 5 4 0 + t 6 3 0 + t 7 2 0 + t 8 1 0,
    t 2 8 0 + t 3 7 1 + t 4 6 0 + t 5 5 1 + t 6 4 0 + t 7 3 1 + t 8 2 0,
    t 3 8 0 + t 4 7 0 + t 5 6 0 + t 6 5 0 + t 7 4 0 + t 8 3 0,
    t 4 8 0 + t 5 7 1 + t 6 6 0 + t 7 5 1 + t 8 4 0,
    t 5 8 0 + t 6 7 0 + t 7 6 0 + t 8 5 0,
    t 6 8 0 + t 7 7 1 + t 8 6 0,
    t 7 8 0 + t 8 7 0,
    t 8 8 0]

def squareSums (a : List UInt32) : List R :=
  let t (i j shift : ℕ) : R := term (a.getD i 0) (a.getD j 0) shift
  [t 0 0 0,
    t 0 1 1,
    t 0 2 1 + t 1 1 1,
    t 0 3 1 + t 1 2 1,
    t 0 4 1 + t 1 3 2 + t 2 2 0,
    t 0 5 1 + t 1 4 1 + t 2 3 1,
    t 0 6 1 + t 1 5 2 + t 2 4 1 + t 3 3 1,
    t 0 7 1 + t 1 6 1 + t 2 5 1 + t 3 4 1,
    t 0 8 1 + t 1 7 2 + t 2 6 1 + t 3 5 2 + t 4 4 0,
    t 1 8 1 + t 2 7 1 + t 3 6 1 + t 4 5 1,
    t 2 8 1 + t 3 7 2 + t 4 6 1 + t 5 5 1,
    t 3 8 1 + t 4 7 1 + t 5 6 1,
    t 4 8 1 + t 5 7 2 + t 6 6 0,
    t 5 8 1 + t 6 7 1,
    t 6 8 1 + t 7 7 1,
    t 7 8 1,
    t 8 8 0]

end Sums

/-! ## The reduction of a product -/

def low (b : UInt64) : UInt32 := b.toUInt32

def high (b : UInt64) : UInt32 := (b >>> 32).toUInt32

/-- The words of the first loop before their carries, from those of the products that are
left and the two before them. -/
def spreadFrom : (wide : Bool) → (second first : UInt64) → List UInt64 → List UInt32
  | true, second, first, b :: bs =>
      ((high second >>> 25) + (low first >>> 28) + ((high first <<< 4) &&& bottom29Bits) +
        (low b &&& bottom29Bits)) :: spreadFrom false first b bs
  | false, second, first, b :: bs =>
      ((high second >>> 25) + (low first >>> 29) + ((high first <<< 3) &&& bottom28Bits) +
        (low b &&& bottom28Bits)) :: spreadFrom true first b bs
  | _, _, _, [] => []

def spreadWords (b : List UInt64) : List UInt32 :=
  let b0 := b.getD 0 0
  let b1 := b.getD 1 0
  let tmp1 := ((low b0 >>> 29) ||| ((high b0 <<< 3) &&& bottom28Bits)) + (low b1 &&& bottom28Bits)
  tmp1 :: spreadFrom true b0 b1 (b.drop 2)

def spreadLast (b : List UInt64) : UInt32 :=
  let b15 := b.getD 15 0
  let b16 := b.getD 16 0
  (high b15 >>> 25) + (low b16 >>> 29) + (high b16 <<< 3)

def spread (b : List UInt64) : List UInt32 :=
  let chain := carryChain false 0 (spreadWords b)
  (low (b.getD 0 0) &&& bottom29Bits) :: chain.1 ++ [spreadLast b + chain.2]

def nonZeroToAllOnes (x : UInt32) : UInt32 := ((x - 1) >>> 31) - 1

def bit28 : UInt32 := 0x10000000

def bit29 : UInt32 := 0x20000000

/-- Limb `i + 3` of an even round, or `i + 4` of an odd one, and whether it has borrowed. -/
def borrowLow (bound xMask due t : UInt32) : UInt32 × UInt32 :=
  if t < bound then (t + (bound &&& xMask) - due, 1) else (t - due, 0)

/-- The three limbs after that one and whether the last has borrowed. Their places have
`first`, `second` and again `first` as bound. -/
def borrowMiddle (first second xMask set x t4 t5 t6 : UInt32) :
    UInt32 × UInt32 × UInt32 × UInt32 :=
  if t4 < first then
    let t4 := t4 + (first &&& xMask) - set - (x >>> 18)
    if t5 < second then
      let t5 := t5 + (second &&& xMask) - 1
      if t6 < first then (t4, t5, t6 + (first &&& xMask) - 1, 1) else (t4, t5, t6 - 1, 0)
    else (t4, t5 - 1, t6, 0)
  else (t4 - set - (x >>> 18), t5, t6, 0)

def borrowHighEven (xMask set7 x t7 t8 t9 : UInt32) : UInt32 × UInt32 × UInt32 :=
  if t7 < bit28 then
    let t7 : UInt32 := t7 + (bit28 &&& xMask) - set7 - ((x <<< 24) &&& bottom28Bits)
    let t8 := t8 + ((x <<< 28) &&& bottom29Bits)
    if t8 < bit29 then
      (t7, t8 + (bit29 &&& xMask) - (1 : UInt32) - (x >>> 4), t9 + (((x >>> 1) - 1) &&& xMask))
    else (t7, t8 - (1 : UInt32) - (x >>> 4), t9 + ((x >>> 1) &&& xMask))
  else
    let t7 := t7 - set7 - ((x <<< 24) &&& bottom28Bits)
    let t8 := t8 + ((x <<< 28) &&& bottom29Bits)
    if t8 < bit29 then
      (t7, t8 + (bit29 &&& xMask) - (x >>> 4), t9 + (((x >>> 1) - 1) &&& xMask))
    else (t7, t8 - (x >>> 4), t9 + ((x >>> 1) &&& xMask))

def borrowHighOdd (xMask set8 x t8 t9 t10 : UInt32) : UInt32 × UInt32 × UInt32 :=
  let (t8, set9) : UInt32 × UInt32 :=
    if t8 < bit29 then
      (t8 + (bit29 &&& xMask) - set8 - ((x <<< 25) &&& bottom29Bits), 1)
    else (t8 - set8 - ((x <<< 25) &&& bottom29Bits), 0)
  if t9 < bit28 then
    (t8, t9 + (bit28 &&& xMask) - set9 - (x >>> 4), t10 + ((x - 1) &&& xMask))
  else (t8, t9 - set9 - (x >>> 4), t10 + (x &&& xMask))

/-- The first half of the second loop: limb `i`, the first of the list, is eliminated and
not read again. -/
def evenRound : List UInt32 → List UInt32
  | t0 :: t1 :: t2 :: t3 :: t4 :: t5 :: t6 :: t7 :: t8 :: t9 :: rest =>
      let t1 := t1 + (t0 >>> 29)
      let x := t0 &&& bottom29Bits
      if 0 < x then
        let xMask := nonZeroToAllOnes x
        let t2 := t2 + ((x <<< 7) &&& bottom29Bits)
        let (t3, set4) :=
          borrowLow bit28 xMask ((x <<< 10) &&& bottom28Bits) (t3 + (x >>> 22))
        let (t4, t5, t6, set7) := borrowMiddle bit29 bit28 xMask set4 x t4 t5 t6
        let (t7, t8, t9) := borrowHighEven xMask set7 x t7 t8 t9
        t1 :: t2 :: t3 :: t4 :: t5 :: t6 :: t7 :: t8 :: t9 :: rest
      else t1 :: t2 :: t3 :: t4 :: t5 :: t6 :: t7 :: t8 :: t9 :: rest
  | tmp => tmp

/-- The second half of the second loop, for limb `i + 1`. -/
def oddRound : List UInt32 → List UInt32
  | t1 :: t2 :: t3 :: t4 :: t5 :: t6 :: t7 :: t8 :: t9 :: t10 :: rest =>
      let t2 := t2 + (t1 >>> 28)
      let x := t1 &&& bottom28Bits
      if 0 < x then
        let xMask := nonZeroToAllOnes x
        let t3 := t3 + ((x <<< 7) &&& bottom28Bits)
        let (t4, set5) :=
          borrowLow bit29 xMask ((x <<< 11) &&& bottom29Bits) (t4 + (x >>> 21))
        let (t5, t6, t7, set8) := borrowMiddle bit28 bit29 xMask set5 x t5 t6 t7
        let (t8, t9, t10) := borrowHighOdd xMask set8 x t8 t9 t10
        t2 :: t3 :: t4 :: t5 :: t6 :: t7 :: t8 :: t9 :: t10 :: rest
      else t2 :: t3 :: t4 :: t5 :: t6 :: t7 :: t8 :: t9 :: t10 :: rest
  | tmp => tmp

/-- The second loop: so many pairs of rounds, and one even round more. -/
def eliminate : (pairs : ℕ) → List UInt32 → List UInt32
  | 0, tmp => evenRound tmp
  | pairs + 1, tmp => eliminate pairs (oddRound (evenRound tmp))

/-- The words of the third loop before their carries: limbs of 28 and 29 bits are cut at
the places of the result. -/
def regroup : List UInt32 → List UInt32
  | first :: second :: rest =>
      (first + ((second <<< 28) &&& bottom29Bits)) :: (second >>> 1) :: regroup rest
  | rest => rest

def sm2P256ReduceDegree (b : List UInt64) : List UInt32 := settle (regroup (eliminate 4 (spread b)))

def sm2P256Mul (a b : List UInt32) : List UInt32 := sm2P256ReduceDegree (mulSums term a b)

def sm2P256Square (a : List UInt32) : List UInt32 := sm2P256ReduceDegree (squareSums term a)

/-! ## Values and bounds -/

def ints (limbs : List UInt32) : List ℤ := limbs.map fun limb => (limb.toNat : ℤ)

theorem ints_cons (limb : UInt32) (limbs : List UInt32) :
    ints (limb :: limbs) = (limb.toNat : ℤ) :: ints limbs := rfl

def val (limbs : List UInt32) : ℤ := value width true (ints limbs)

def Below (bound : Bool → ℕ) : Bool → List UInt32 → Prop
  | _, [] => True
  | wide, limb :: limbs => limb.toNat < bound wide ∧ Below bound (!wide) limbs

structure Bounded (a : List UInt32) : Prop where
  nine : a.length = 9
  below : Below (fun wide => 2 ^ (width wide + 1)) true a

@[simp] theorem width_wide : width true = 29 := rfl

@[simp] theorem width_narrow : width false = 28 := rfl

theorem masked_word (wide : Bool) (word : UInt32) :
    (word &&& bottomBits wide).toNat = word.toNat % 2 ^ width wide := by
  rw [UInt32.toNat_and]
  cases wide with
  | true => exact Nat.and_two_pow_sub_one_eq_mod word.toNat 29
  | false => exact Nat.and_two_pow_sub_one_eq_mod word.toNat 28

theorem shifted_word (wide : Bool) (word : UInt32) :
    (word >>> UInt32.ofNat (width wide)).toNat = word.toNat / 2 ^ width wide := by
  rw [UInt32.toNat_shiftRight, Nat.shiftRight_eq_div_pow]
  cases wide <;> rfl

/-- How often a chain wraps at each limb. -/
def wraps : Bool → ℤ → List ℤ → List ℤ
  | _, _, [] => []
  | wide, carry, number :: numbers =>
      -((number + carry) / 2 ^ 32) ::
        wraps (!wide) ((number + carry) % 2 ^ 32 / 2 ^ width wide) numbers

/-- The limbs of a chain and its last carry have the value of the numbers that the words
track, except for what is gained where a sum below zero has wrapped. -/
theorem carry_chain_value (wide : Bool) (carry : UInt32) {words : List UInt32} {numbers : List ℤ}
    (tracked : List.Forall₂ Tracks words numbers) :
    value width wide (ints (carryChain wide carry words).1 ++
        [((carryChain wide carry words).2.toNat : ℤ)]) =
      value width wide numbers + carry.toNat +
        2 ^ 32 * value width wide (wraps wide carry.toNat numbers) := by
  induction tracked generalizing wide carry with
  | nil => simp [carryChain, ints, wraps]
  | @cons word number words numbers first rest induction =>
      have total : ((word + carry).toNat : ℤ) = (number + carry.toNat) % 2 ^ 32 :=
        tracks_add first (tracks_self carry)
      have later := induction (!wide) ((word + carry) >>> UInt32.ofNat (width wide))
      have next : (((word + carry) >>> UInt32.ofNat (width wide)).toNat : ℤ) =
          (number + carry.toNat) % 2 ^ 32 / 2 ^ width wide := by
        rw [shifted_word, ← total]
        simp
      have cut : (((word + carry) &&& bottomBits wide).toNat : ℤ) =
          (number + carry.toNat) % 2 ^ 32 % 2 ^ width wide := by
        rw [masked_word, ← total]
        simp
      rw [next] at later
      have whole := Int.emod_add_mul_ediv ((number + carry.toNat) % 2 ^ 32) (2 ^ width wide)
      have wrapped := Int.emod_add_mul_ediv (number + carry.toNat) (2 ^ 32)
      simp only [carryChain, ints, List.map_cons, List.cons_append, value_cons, wraps] at later ⊢
      rw [later, cut]
      linear_combination whole + wrapped

theorem carry_chain_below (wide : Bool) (carry : UInt32) (words : List UInt32) :
    Below (fun wide => 2 ^ width wide) wide (carryChain wide carry words).1 := by
  induction words generalizing wide carry with
  | nil => trivial
  | cons word words induction =>
      refine ⟨?_, induction _ _⟩
      rw [masked_word]
      exact Nat.mod_lt _ (Nat.two_pow_pos _)

theorem carry_chain_length (wide : Bool) (carry : UInt32) (words : List UInt32) :
    (carryChain wide carry words).1.length = words.length := by
  induction words generalizing wide carry with
  | nil => rfl
  | cons word words induction => rw [carryChain, List.length_cons, induction, List.length_cons]

theorem nine_limbs {a : List UInt32} (nine : a.length = 9) :
    ∃ a0 a1 a2 a3 a4 a5 a6 a7 a8, a = [a0, a1, a2, a3, a4, a5, a6, a7, a8] := by
  rcases a with _ | ⟨a0, _ | ⟨a1, _ | ⟨a2, _ | ⟨a3, _ | ⟨a4, _ | ⟨a5, _ | ⟨a6, _ | ⟨a7, _ | ⟨a8,
    _ | ⟨a9, rest⟩⟩⟩⟩⟩⟩⟩⟩⟩⟩ <;> simp at nine
  exact ⟨a0, a1, a2, a3, a4, a5, a6, a7, a8, rfl⟩

/-- The rows of the table hold the multiples of `2 ^ 257` modulo `p`, in limbs that leave
room for one bit. -/
theorem carry_rows : ∀ k < 8,
    (sm2P256Carry.getD (k * 9 + 0) 0).toNat < 2 ^ 28 ∧
      (sm2P256Carry.getD (k * 9 + 2) 0).toNat < 2 ^ 29 ∧
      (sm2P256Carry.getD (k * 9 + 3) 0).toNat < 2 ^ 28 ∧
      (sm2P256Carry.getD (k * 9 + 7) 0).toNat < 2 ^ 28 ∧
      ((sm2P256Carry.getD (k * 9 + 0) 0).toNat +
        2 ^ 57 * (sm2P256Carry.getD (k * 9 + 2) 0).toNat +
        2 ^ 86 * (sm2P256Carry.getD (k * 9 + 3) 0).toNat +
        2 ^ 200 * (sm2P256Carry.getD (k * 9 + 7) 0).toNat) % p = k * (2 * 2 ^ 256) % p := by
  decide

theorem reduce_carry_spec {c : List UInt32} {carry : UInt32} (nine : c.length = 9)
    (below : Below (fun wide => 2 ^ width wide) true c) (small : carry.toNat < 8) :
    Bounded (sm2P256ReduceCarry c carry) ∧
      (val (sm2P256ReduceCarry c carry) : ZMod p) =
        (value width true (ints c ++ [(carry.toNat : ℤ)]) : ℤ) := by
  obtain ⟨c0, c1, c2, c3, c4, c5, c6, c7, c8, rfl⟩ := nine_limbs nine
  obtain ⟨h0, h2, h3, h7, row⟩ := carry_rows carry.toNat small
  have index : (carry * 9).toNat = carry.toNat * 9 := by
    rw [UInt32.toNat_mul]
    change carry.toNat * 9 % 2 ^ 32 = _
    omega
  have changed : sm2P256ReduceCarry [c0, c1, c2, c3, c4, c5, c6, c7, c8] carry =
      [c0 + sm2P256Carry.getD (carry.toNat * 9 + 0) 0, c1,
        c2 + sm2P256Carry.getD (carry.toNat * 9 + 2) 0,
        c3 + sm2P256Carry.getD (carry.toNat * 9 + 3) 0, c4, c5, c6,
        c7 + sm2P256Carry.getD (carry.toNat * 9 + 7) 0, c8] := by
    rw [← index]
    rfl
  rw [changed]
  generalize sm2P256Carry.getD (carry.toNat * 9 + 0) 0 = e0 at *
  generalize sm2P256Carry.getD (carry.toNat * 9 + 2) 0 = e2 at *
  generalize sm2P256Carry.getD (carry.toNat * 9 + 3) 0 = e3 at *
  generalize sm2P256Carry.getD (carry.toNat * 9 + 7) 0 = e7 at *
  simp only [Below, width_wide, width_narrow, Bool.not_true, Bool.not_false, and_true] at below
  obtain ⟨b0, b1, b2, b3, b4, b5, b6, b7, b8⟩ := below
  have sum : ∀ {x y : UInt32}, x.toNat < 2 ^ 29 → y.toNat < 2 ^ 29 →
      (x + y).toNat = x.toNat + y.toNat := by
    intro x y first second
    rw [UInt32.toNat_add]
    omega
  have s0 := sum b0 (by omega : e0.toNat < 2 ^ 29)
  have s2 := sum b2 (by omega : e2.toNat < 2 ^ 29)
  have s3 := sum (by omega : c3.toNat < 2 ^ 29) (by omega : e3.toNat < 2 ^ 29)
  have s7 := sum (by omega : c7.toNat < 2 ^ 29) (by omega : e7.toNat < 2 ^ 29)
  constructor
  · refine ⟨rfl, ?_⟩
    simp only [Below, width_wide, width_narrow, Bool.not_true, Bool.not_false, and_true, s0, s2, s3,
      s7]
    omega
  · have multiple : ((e0.toNat + 2 ^ 57 * e2.toNat + 2 ^ 86 * e3.toNat + 2 ^ 200 * e7.toNat : ℕ) :
        ZMod p) = (carry.toNat * (2 * 2 ^ 256) : ℕ) :=
      (ZMod.natCast_eq_natCast_iff' _ _ _).mpr row
    simp only [val, ints, List.map_cons, List.map_nil, List.cons_append, List.nil_append,
      value_cons, value_nil, width_wide, width_narrow, Bool.not_true, Bool.not_false, s0, s2, s3, s7]
    push_cast at multiple ⊢
    linear_combination multiple

theorem last_carry_small {words : List UInt32} (nine : words.length = 9) (carry : UInt32) :
    (carryChain true carry words).2.toNat < 8 := by
  obtain ⟨w0, w1, w2, w3, w4, w5, w6, w7, w8, rfl⟩ := nine_limbs nine
  simp only [carryChain]
  rw [shifted_word]
  exact Nat.div_lt_of_lt_mul (UInt32.toNat_lt _)

/-- Nine words are brought to a bounded element of the value that they track, up to wraps. -/
theorem settle_spec {words : List UInt32} {numbers : List ℤ} (nine : words.length = 9)
    (tracked : List.Forall₂ Tracks words numbers) :
    Bounded (settle words) ∧
      (val (settle words) : ZMod p) =
        (value width true numbers + 2 ^ 32 * value width true (wraps true 0 numbers) : ℤ) := by
  have length := carry_chain_length true 0 words
  rw [nine] at length
  have reduced := reduce_carry_spec length (carry_chain_below true 0 words) (last_carry_small nine 0)
  have same := carry_chain_value true 0 tracked
  refine ⟨reduced.1, ?_⟩
  rw [settle, reduced.2, same]
  simp

/-- A chain does not wrap over numbers that leave room for a carry. -/
theorem wraps_eq_zero (wide : Bool) {carry : ℤ} {numbers : List ℤ} (fits : 0 ≤ carry ∧ carry < 16)
    (room : ∀ number ∈ numbers, 0 ≤ number ∧ number < 2 ^ 32 - 16) :
    value width wide (wraps wide carry numbers) = 0 := by
  induction numbers generalizing wide carry with
  | nil => rfl
  | cons number numbers induction =>
      rw [List.forall_mem_cons] at room
      have whole : (number + carry) / 2 ^ 32 = 0 := by omega
      have next : 0 ≤ (number + carry) % 2 ^ 32 / 2 ^ width wide ∧
          (number + carry) % 2 ^ 32 / 2 ^ width wide < 16 := by
        cases wide <;> simp only [width_wide, width_narrow] <;> omega
      rw [wraps, value_cons, whole, induction (!wide) next room.2]
      ring

theorem bounded_limbs {a : List UInt32} (bounded : Bounded a) :
    ∃ a0 a1 a2 a3 a4 a5 a6 a7 a8, a = [a0, a1, a2, a3, a4, a5, a6, a7, a8] ∧
      (a0.toNat < 2 ^ 30 ∧ a1.toNat < 2 ^ 29 ∧ a2.toNat < 2 ^ 30 ∧ a3.toNat < 2 ^ 29 ∧
        a4.toNat < 2 ^ 30 ∧ a5.toNat < 2 ^ 29 ∧ a6.toNat < 2 ^ 30 ∧ a7.toNat < 2 ^ 29 ∧
        a8.toNat < 2 ^ 30) := by
  obtain ⟨a0, a1, a2, a3, a4, a5, a6, a7, a8, rfl⟩ := nine_limbs bounded.nine
  have below := bounded.below
  simp only [Below, width_wide, width_narrow, Bool.not_true, Bool.not_false, and_true] at below
  exact ⟨a0, a1, a2, a3, a4, a5, a6, a7, a8, rfl, below⟩

theorem zero31_value : (val sm2P256Zero31 : ZMod p) = 0 := by
  rw [ZMod.intCast_zmod_eq_zero_iff_dvd]
  decide

theorem tracked_ints (limbs : List UInt32) : List.Forall₂ Tracks limbs (ints limbs) := by
  rw [ints, List.forall₂_map_right_iff]
  exact List.forall₂_same.mpr fun limb _ => tracks_self limb

theorem ints_length (limbs : List UInt32) : (ints limbs).length = limbs.length := by
  rw [ints, List.length_map]

section Exact

variable {a b : List UInt32} (first : Bounded a) (second : Bounded b)

include first second

theorem add_words_nine : (addWords a b).length = 9 := by
  rw [addWords, List.length_zipWith, first.nine, second.nine]
  rfl

theorem sub_words_nine : (subWords a b).length = 9 := by
  rw [subWords, List.length_zipWith, List.length_zipWith, first.nine, second.nine]
  rfl

theorem add_exact :
    Bounded (sm2P256Add a b) ∧ (val (sm2P256Add a b) : ZMod p) = val a + val b := by
  have tracked := tracked_zip tracks_add (tracked_ints a) (tracked_ints b)
  have sum : value width true (List.zipWith (· + ·) (ints a) (ints b)) = val a + val b := by
    rw [value_zip width _ 1 1 (by intro x y; ring), val, val]
    · ring
    · rw [ints_length, ints_length, first.nine, second.nine]
  have room : ∀ number ∈ List.zipWith (· + ·) (ints a) (ints b),
      0 ≤ number ∧ number < 2 ^ 32 - 16 := by
    obtain ⟨a0, a1, a2, a3, a4, a5, a6, a7, a8, rfl, boundsA⟩ := bounded_limbs first
    obtain ⟨b0, b1, b2, b3, b4, b5, b6, b7, b8, rfl, boundsB⟩ := bounded_limbs second
    simp only [ints, List.map_cons, List.map_nil, List.zipWith_cons_cons, List.zipWith_nil_left,
      List.forall_mem_cons]
    refine ⟨?_, ?_, ?_, ?_, ?_, ?_, ?_, ?_, ?_, List.forall_mem_nil _⟩ <;> omega
  obtain ⟨bounded, same⟩ := settle_spec (add_words_nine first second) tracked
  refine ⟨bounded, ?_⟩
  rw [sm2P256Add, same, wraps_eq_zero true (by decide) room, sum]
  push_cast
  ring

theorem sub_exact :
    Bounded (sm2P256Sub a b) ∧ (val (sm2P256Sub a b) : ZMod p) = val a - val b := by
  have tracked := tracked_zip tracks_add
    (tracked_zip tracks_sub (tracked_ints a) (tracked_ints b)) (tracked_ints sm2P256Zero31)
  have difference : value width true (List.zipWith (· + ·)
      (List.zipWith (· - ·) (ints a) (ints b)) (ints sm2P256Zero31)) =
      val a - val b + val sm2P256Zero31 := by
    have same : (ints a).length = (ints b).length := by
      rw [ints_length, ints_length, first.nine, second.nine]
    rw [value_zip width _ 1 1 (by intro x y; ring), value_zip width _ 1 (-1) (by intro x y; ring) _ same,
      val, val, val]
    · ring
    · rw [List.length_zipWith, ints_length, ints_length, first.nine, second.nine]
      rfl
  have room : ∀ number ∈ List.zipWith (· + ·) (List.zipWith (· - ·) (ints a) (ints b))
      (ints sm2P256Zero31), 0 ≤ number ∧ number < 2 ^ 32 - 16 := by
    obtain ⟨a0, a1, a2, a3, a4, a5, a6, a7, a8, rfl, boundsA⟩ := bounded_limbs first
    obtain ⟨b0, b1, b2, b3, b4, b5, b6, b7, b8, rfl, boundsB⟩ := bounded_limbs second
    simp only [ints, sm2P256Zero31, List.map_cons, List.map_nil, List.zipWith_cons_cons, List.zipWith_nil_left,
      List.forall_mem_cons, UInt32.reduceToNat]
    refine ⟨?_, ?_, ?_, ?_, ?_, ?_, ?_, ?_, ?_, List.forall_mem_nil _⟩ <;> omega
  obtain ⟨bounded, same⟩ := settle_spec (sub_words_nine first second) tracked
  refine ⟨bounded, ?_⟩
  rw [sm2P256Sub, same, wraps_eq_zero true (by decide) room, difference]
  push_cast
  rw [zero31_value]
  ring

end Exact

end PbftBlock.FieldLimbs
