import PbftBlock.FieldLimbs

/-!
# Eliminating the limbs of a product

`sm2P256ReduceDegree` adds multiples of `p` that make the low limbs of a product zero, one
limb after the other, and borrows from the next limb where a word is smaller than its
place. The words wrap. They are followed here by the integers that they stand for: every
round keeps the value up to a multiple of `p` and a window of bounds. A limb above the
eighth can be left below zero, and its word is then taken for a large one.
-/

namespace PbftBlock.FieldLimbs

open PbftBlock.Library.Words
open PbftBlock.CurveAddition (p)

set_option autoImplicit false

/-- A limb that was asked to lend has borrowed, which it does if its word is below the
bound of its place. A negative limb is taken for a large one. -/
def Borrowed (asked bound number borrow : ℤ) : Prop :=
  borrow = 1 ∧ asked = 1 ∧ 0 ≤ number ∧ number < bound ∨
    borrow = 0 ∧ (asked = 0 ∨ number < 0 ∨ bound ≤ number)

theorem borrowed_bit {asked bound number borrow : ℤ}
    (borrowed : Borrowed asked bound number borrow) : 0 ≤ borrow ∧ borrow ≤ 1 := by
  unfold Borrowed at borrowed
  omega

/-- Bounds of a limb, which is not negative as long as `keeps` holds. -/
def Within (keeps : Prop) (least high number : ℤ) : Prop :=
  (keeps → 0 ≤ number) ∧ least ≤ number ∧ number < high

section Bounds

variable {keeps keeps' : Prop} {least high least' high' number : ℤ} (imp : keeps' → keeps)
  (range : Within keeps least high number)

include imp range

theorem within_add {extra more : ℤ} (some : 0 ≤ extra ∧ extra ≤ more) (lower : least' ≤ least)
    (room : high + more ≤ high') : Within keeps' least' high' (number + extra) := by
  obtain ⟨kept, above, below⟩ := range
  refine ⟨fun holds => ?_, by omega, by omega⟩
  have nonnegative := kept (imp holds)
  omega

theorem within_mono (lower : least' ≤ least) (room : high ≤ high') :
    Within keeps' least' high' number :=
  ⟨fun holds => range.1 (imp holds), le_trans lower range.2.1, lt_of_lt_of_le range.2.2 room⟩

/-- A limb that lends `due` becomes smaller by that at most, and stays below its bound. -/
theorem within_lent {asked bound borrow due most : ℤ}
    (borrowed : Borrowed asked bound number borrow) (amount : 0 ≤ due ∧ due ≤ most)
    (bit : asked = 1 ∨ asked = 0 ∧ due = 0) (fits : most ≤ bound) (lower : least' ≤ least - most)
    (room : 2 * bound ≤ high) : Within keeps' least' high (number + bound * borrow - due) := by
  obtain ⟨kept, above, below⟩ := range
  obtain ⟨rfl, asks, inside⟩ | ⟨rfl, outside⟩ := borrowed
  · rw [mul_one]
    exact ⟨fun _ => by omega, by omega, by omega⟩
  · rw [mul_zero, add_zero]
    refine ⟨fun holds => ?_, by omega, by omega⟩
    have nonnegative := kept (imp holds)
    omega

end Bounds

theorem lent_nonneg {asked bound number borrow due high : ℤ} (range : 0 ≤ number ∧ number < high)
    (borrowed : Borrowed asked bound number borrow) (amount : 0 ≤ due ∧ due ≤ bound)
    (bit : asked = 1 ∨ asked = 0 ∧ due = 0) (room : 2 * bound ≤ high) :
    0 ≤ number + bound * borrow - due ∧ number + bound * borrow - due < high := by
  have signed : Within True 0 high number := ⟨fun _ => range.1, range⟩
  have within := within_lent id signed borrowed amount bit (le_refl bound) (le_refl _) room
  exact ⟨within.1 trivial, within.2.2⟩

/-- The mask is all ones for the limbs that are eliminated. -/
theorem non_zero_to_all_ones {x : UInt32} (positive : 0 < x) (small : x.toNat < 2 ^ 29)
    (word : UInt32) : word &&& nonZeroToAllOnes x = word := by
  have some : 0 < x.toNat := UInt32.lt_iff_toNat_lt.mp positive
  have less : (x - 1) >>> 31 = 0 := by
    apply UInt32.toNat.inj
    rw [UInt32.toNat_shiftRight, Nat.shiftRight_eq_div_pow, UInt32.toNat_sub]
    change (2 ^ 32 - 1 + x.toNat) % 2 ^ 32 / 2 ^ 31 = 0
    omega
  have ones : nonZeroToAllOnes x = -1 := by
    rw [nonZeroToAllOnes, less]
    rfl
  rw [ones, UInt32.and_neg_one]

/-- The word tracks the number, and a comparison can tell whether that is negative. -/
structure Seen (word : UInt32) (number : ℤ) : Prop where
  tracked : Tracks word number
  above : -2 ^ 31 ≤ number
  small : number < 2 ^ 32

section Comparisons

variable {bound t : UInt32} {e : ℤ} (seen : Seen t e) (low : bound.toNat ≤ 2 ^ 31)

include seen low

theorem borrowed_of_lt (less : t < bound) : Borrowed 1 bound.toNat e 1 :=
  Or.inl ⟨rfl, rfl, (tracked_lt_iff seen.tracked seen.above seen.small low).mp less⟩

theorem borrowed_of_not_lt (less : ¬t < bound) : Borrowed 1 bound.toNat e 0 := by
  have outside := mt (tracked_lt_iff seen.tracked seen.above seen.small low).mpr less
  refine Or.inr ⟨rfl, Or.inr ?_⟩
  omega

end Comparisons

theorem borrowed_unasked (bound number : ℤ) : Borrowed 0 bound number 0 :=
  Or.inr ⟨rfl, Or.inl rfl⟩

section Blocks

variable {xMask : UInt32} (mask : ∀ word : UInt32, word &&& xMask = word)

include mask

theorem borrow_low_spec (bound due : UInt32) {t : UInt32} {e : ℤ} (seen : Seen t e)
    (low : bound.toNat ≤ 2 ^ 31) :
    ∃ borrow : ℤ, Borrowed 1 bound.toNat e borrow ∧
      Tracks (borrowLow bound xMask due t).1 (e + bound.toNat * borrow - due.toNat) ∧
      Tracks (borrowLow bound xMask due t).2 borrow := by
  unfold borrowLow
  split_ifs with less
  · refine ⟨1, borrowed_of_lt seen low less, ?_, rfl⟩
    rw [mask, mul_one]
    exact tracks_sub (tracks_add seen.tracked (tracks_self bound)) (tracks_self due)
  · refine ⟨0, borrowed_of_not_lt seen low less, ?_, rfl⟩
    rw [mul_zero, add_zero]
    exact tracks_sub seen.tracked (tracks_self due)

/-- A limb lends only where the one before it has borrowed. -/
theorem borrow_middle_spec (first second x : UInt32) {set t4 t5 t6 : UInt32} {e4 e5 e6 taken : ℤ}
    (seen4 : Seen t4 e4) (seen5 : Seen t5 e5) (seen6 : Seen t6 e6) (before : Tracks set taken)
    (low : first.toNat ≤ 2 ^ 31) (low' : second.toNat ≤ 2 ^ 31) :
    ∃ b4 b5 b6 : ℤ, Borrowed 1 first.toNat e4 b4 ∧ Borrowed b4 second.toNat e5 b5 ∧
      Borrowed b5 first.toNat e6 b6 ∧
      Tracks (borrowMiddle first second xMask set x t4 t5 t6).1
        (e4 + first.toNat * b4 - (taken + (x >>> 18).toNat)) ∧
      Tracks (borrowMiddle first second xMask set x t4 t5 t6).2.1
        (e5 + second.toNat * b5 - b4) ∧
      Tracks (borrowMiddle first second xMask set x t4 t5 t6).2.2.1
        (e6 + first.toNat * b6 - b5) ∧
      Tracks (borrowMiddle first second xMask set x t4 t5 t6).2.2.2 b6 := by
  have moved : Tracks (x >>> 18) (x >>> 18).toNat := tracks_self _
  have lent4 := tracks_sub (tracks_sub (tracks_add seen4.tracked (tracks_self first)) before) moved
  have lent5 := tracks_sub (tracks_add seen5.tracked (tracks_self second)) (tracks_self 1)
  have lent6 := tracks_sub (tracks_add seen6.tracked (tracks_self first)) (tracks_self 1)
  unfold borrowMiddle
  simp only [← sub_sub, mask]
  split_ifs with less4 less5 less6
  · refine ⟨1, 1, 1, borrowed_of_lt seen4 low less4, borrowed_of_lt seen5 low' less5,
      borrowed_of_lt seen6 low less6, ?_⟩
    simp only [mul_one]
    exact ⟨lent4, lent5, lent6, rfl⟩
  · refine ⟨1, 1, 0, borrowed_of_lt seen4 low less4, borrowed_of_lt seen5 low' less5,
      borrowed_of_not_lt seen6 low less6, ?_⟩
    simp only [mul_one, mul_zero, add_zero]
    exact ⟨lent4, lent5, tracks_sub seen6.tracked (tracks_self 1), rfl⟩
  · refine ⟨1, 0, 0, borrowed_of_lt seen4 low less4, borrowed_of_not_lt seen5 low' less5,
      borrowed_unasked _ _, ?_⟩
    simp only [mul_one, mul_zero, add_zero, sub_zero]
    exact ⟨lent4, tracks_sub seen5.tracked (tracks_self 1), seen6.tracked, rfl⟩
  · refine ⟨0, 0, 0, borrowed_of_not_lt seen4 low less4, borrowed_unasked _ _,
      borrowed_unasked _ _, ?_⟩
    simp only [mul_zero, add_zero, sub_zero]
    exact ⟨tracks_sub (tracks_sub seen4.tracked before) moved, seen5.tracked, seen6.tracked, rfl⟩

theorem borrow_high_even_spec (x : UInt32) {set7 t7 t8 t9 : UInt32} {e7 e8 e9 taken : ℤ}
    (seen7 : Seen t7 e7) (seen8 : Seen (t8 + ((x <<< 28) &&& bottom29Bits)) e8)
    (tracked9 : Tracks t9 e9) (before : Tracks set7 taken) :
    ∃ b7 b8 : ℤ, Borrowed 1 bit28.toNat e7 b7 ∧ Borrowed 1 bit29.toNat e8 b8 ∧
      Tracks (borrowHighEven xMask set7 x t7 t8 t9).1
        (e7 + bit28.toNat * b7 - (taken + ((x <<< 24) &&& bottom28Bits).toNat)) ∧
      Tracks (borrowHighEven xMask set7 x t7 t8 t9).2.1
        (e8 + bit29.toNat * b8 - (b7 + (x >>> 4).toNat)) ∧
      Tracks (borrowHighEven xMask set7 x t7 t8 t9).2.2 (e9 + ((x >>> 1).toNat - b8)) := by
  have low28 : bit28.toNat ≤ 2 ^ 31 := by decide
  have low29 : bit29.toNat ≤ 2 ^ 31 := by decide
  have amount7 : Tracks ((x <<< 24) &&& bottom28Bits) _ := tracks_self _
  have amount8 : Tracks (x >>> 4) _ := tracks_self _
  have amount9 : Tracks (x >>> 1) _ := tracks_self _
  have lent7 := tracks_sub (tracks_sub (tracks_add seen7.tracked (tracks_self bit28)) before) amount7
  have kept7 := tracks_sub (tracks_sub seen7.tracked before) amount7
  have lent8 := tracks_add seen8.tracked (tracks_self bit29)
  have gained := tracks_add tracked9 amount9
  have paid := tracks_add tracked9 (tracks_sub amount9 (tracks_self 1))
  unfold borrowHighEven
  simp only [← sub_sub, mask]
  split_ifs with less7 less8 less8
  · refine ⟨1, 1, borrowed_of_lt seen7 low28 less7, borrowed_of_lt seen8 low29 less8, ?_⟩
    simp only [mul_one]
    exact ⟨lent7, tracks_sub (tracks_sub lent8 (tracks_self 1)) amount8, paid⟩
  · refine ⟨1, 0, borrowed_of_lt seen7 low28 less7, borrowed_of_not_lt seen8 low29 less8, ?_⟩
    simp only [mul_one, mul_zero, add_zero, sub_zero]
    exact ⟨lent7, tracks_sub (tracks_sub seen8.tracked (tracks_self 1)) amount8, gained⟩
  · refine ⟨0, 1, borrowed_of_not_lt seen7 low28 less7, borrowed_of_lt seen8 low29 less8, ?_⟩
    simp only [mul_one, mul_zero, add_zero, sub_zero]
    exact ⟨kept7, tracks_sub lent8 amount8, paid⟩
  · refine ⟨0, 0, borrowed_of_not_lt seen7 low28 less7, borrowed_of_not_lt seen8 low29 less8, ?_⟩
    simp only [mul_zero, add_zero, sub_zero]
    exact ⟨kept7, tracks_sub seen8.tracked amount8, gained⟩

theorem borrow_high_odd_spec (x : UInt32) {set8 t8 t9 t10 : UInt32} {e8 e9 e10 taken : ℤ}
    (seen8 : Seen t8 e8) (seen9 : Seen t9 e9) (tracked10 : Tracks t10 e10)
    (before : Tracks set8 taken) :
    ∃ b8 b9 : ℤ, Borrowed 1 bit29.toNat e8 b8 ∧ Borrowed 1 bit28.toNat e9 b9 ∧
      Tracks (borrowHighOdd xMask set8 x t8 t9 t10).1
        (e8 + bit29.toNat * b8 - (taken + ((x <<< 25) &&& bottom29Bits).toNat)) ∧
      Tracks (borrowHighOdd xMask set8 x t8 t9 t10).2.1
        (e9 + bit28.toNat * b9 - (b8 + (x >>> 4).toNat)) ∧
      Tracks (borrowHighOdd xMask set8 x t8 t9 t10).2.2 (e10 + (x.toNat - b9)) := by
  have low28 : bit28.toNat ≤ 2 ^ 31 := by decide
  have low29 : bit29.toNat ≤ 2 ^ 31 := by decide
  have amount8 : Tracks ((x <<< 25) &&& bottom29Bits) _ := tracks_self _
  have amount9 : Tracks (x >>> 4) _ := tracks_self _
  have lent8 := tracks_sub (tracks_sub (tracks_add seen8.tracked (tracks_self bit29)) before) amount8
  have kept8 := tracks_sub (tracks_sub seen8.tracked before) amount8
  have lent9 := tracks_add seen9.tracked (tracks_self bit28)
  have gained := tracks_add tracked10 (tracks_self x)
  have paid := tracks_add tracked10 (tracks_sub (tracks_self x) (tracks_self 1))
  unfold borrowHighOdd
  simp only [← sub_sub, mask]
  split_ifs with less9 less8 less8
  · refine ⟨1, 1, borrowed_of_lt seen8 low29 less8, borrowed_of_lt seen9 low28 less9, ?_⟩
    simp only [mul_one]
    exact ⟨lent8, tracks_sub (tracks_sub lent9 (tracks_self 1)) amount9, paid⟩
  · refine ⟨0, 1, borrowed_of_not_lt seen8 low29 less8, borrowed_of_lt seen9 low28 less9, ?_⟩
    simp only [mul_one, mul_zero, add_zero]
    exact ⟨kept8, tracks_sub (tracks_sub lent9 (tracks_self 0)) amount9, paid⟩
  · refine ⟨1, 0, borrowed_of_lt seen8 low29 less8, borrowed_of_not_lt seen9 low28 less9, ?_⟩
    simp only [mul_one, mul_zero, add_zero, sub_zero (x.toNat : ℤ)]
    exact ⟨lent8, tracks_sub (tracks_sub seen9.tracked (tracks_self 1)) amount9, gained⟩
  · refine ⟨0, 0, borrowed_of_not_lt seen8 low29 less8, borrowed_of_not_lt seen9 low28 less9, ?_⟩
    simp only [mul_zero, add_zero, sub_zero (x.toNat : ℤ)]
    exact ⟨kept8, tracks_sub (tracks_sub seen9.tracked (tracks_self 0)) amount9, gained⟩

end Blocks

theorem cut_shift (wide : Bool) (x up down : UInt32)
    (inside : up.toNat < 32 ∧ down.toNat < 32) (place : up.toNat + down.toNat = width wide) :
    (((x <<< up) &&& bottomBits wide).toNat : ℤ) + 2 ^ width wide * ((x >>> down).toNat : ℤ) =
      2 ^ up.toNat * x.toNat := by
  have divides : 2 ^ width wide ∣ 2 ^ 32 := pow_dvd_pow 2 (by cases wide <;> decide)
  have cut : ((x <<< up) &&& bottomBits wide).toNat = 2 ^ up.toNat * (x.toNat % 2 ^ down.toNat) := by
    rw [masked_word, UInt32.toNat_shiftLeft, Nat.mod_eq_of_lt inside.1, Nat.mod_mod_of_dvd _ divides,
      Nat.shiftLeft_eq, ← place, pow_add, Nat.mul_comm, Nat.mul_mod_mul_left]
  have moved : (x >>> down).toNat = x.toNat / 2 ^ down.toNat := by
    rw [UInt32.toNat_shiftRight, Nat.mod_eq_of_lt inside.2, Nat.shiftRight_eq_div_pow]
  have whole := Nat.mod_add_div x.toNat (2 ^ down.toNat)
  rw [cut, moved, ← place, pow_add]
  push_cast
  rw [mul_assoc, ← mul_add]
  norm_cast
  rw [whole]

/-- Before an even round with so many pairs of rounds left. Limbs from the ninth on may be
negative where their index is odd. -/
structure EvenWindow (pairs : ℕ) (t0 t1 t2 t3 t4 t5 t6 t7 t8 t9 : ℤ) : Prop where
  limb0 : 0 ≤ t0 ∧ t0 < 2 ^ 31
  limb1 : Within (1 ≤ pairs) (-2 ^ 30) (2 ^ 29 + 2 ^ 28 + 2 ^ 8) t1
  limb2 : 0 ≤ t2 ∧ t2 < 2 ^ 30 + 2 ^ 7
  limb3 : Within (2 ≤ pairs) (-(2 ^ 29 + 2 ^ 11)) (2 ^ 29) t3
  limb4 : 0 ≤ t4 ∧ t4 < 2 ^ 30
  limb5 : Within (3 ≤ pairs) (-(2 ^ 29 + 1)) (2 ^ 29) t5
  limb6 : 0 ≤ t6 ∧ t6 < 2 ^ 30
  limb7 : Within (4 ≤ pairs) (-2 ^ 25) (2 ^ 29) t7
  limb8 : 0 ≤ t8 ∧ t8 < 2 ^ 29 + 2 ^ 28
  limb9 : 0 ≤ t9 ∧ t9 < 2 ^ 31 + 2 ^ 10 ∧ (1 ≤ pairs → t9 < 2 ^ 28)

/-- After an even round, with the eliminated limb gone. The last limb is below zero only
if the one before it has more than its place. -/
structure OddWindow (pairs : ℕ) (t1 t2 t3 t4 t5 t6 t7 t8 t9 : ℤ) : Prop where
  limb1 : Within (1 ≤ pairs) (-2 ^ 30) (2 ^ 30) t1
  limb2 : 0 ≤ t2 ∧ t2 < 2 ^ 30 + 2 ^ 29 + 2 ^ 7
  limb3 : Within (2 ≤ pairs) (-2 ^ 30) (2 ^ 29 + 2 ^ 7) t3
  limb4 : 0 ≤ t4 ∧ t4 < 2 ^ 30
  limb5 : Within (3 ≤ pairs) (-(2 ^ 29 + 2)) (2 ^ 29) t5
  limb6 : 0 ≤ t6 ∧ t6 < 2 ^ 30
  limb7 : Within (4 ≤ pairs) (-2 ^ 29) (2 ^ 29) t7
  limb8 : 0 ≤ t8 ∧ t8 < 2 ^ 30
  limb9 : -1 ≤ t9 ∧ t9 < 2 ^ 31 + 2 ^ 29 ∧ (1 ≤ pairs → t9 < 2 ^ 29) ∧ (t9 < 0 → 2 ^ 29 ≤ t8)

theorem prime_value : (p : ℤ) = 2 ^ 256 - 2 ^ 224 - 2 ^ 96 + 2 ^ 64 - 1 := by
  rw [p]
  norm_num

section EvenStep

variable {pairs : ℕ} {t0 t1 t2 t3 t4 t5 t6 t7 t8 t9 : ℤ}

theorem even_idle_window {q : ℤ} (window : EvenWindow pairs t0 t1 t2 t3 t4 t5 t6 t7 t8 t9)
    (carried : 0 ≤ q ∧ q ≤ 3) : OddWindow pairs (t1 + q) t2 t3 t4 t5 t6 t7 t8 t9 := by
  have limb2 := window.limb2
  have limb8 := window.limb8
  obtain ⟨nonnegative, below, narrow⟩ := window.limb9
  exact ⟨within_add id window.limb1 carried (le_refl _) (by norm_num), by omega,
    within_mono id window.limb3 (by norm_num) (by norm_num), window.limb4,
    within_mono id window.limb5 (by norm_num) (le_refl _), window.limb6,
    within_mono id window.limb7 (by norm_num) (le_refl _), by omega,
    ⟨by omega, by omega, fun some => lt_trans (narrow some) (by norm_num), by omega⟩⟩

-- the eliminated limb is `x + 2 ^ 29 * q`; the `a` are what stays of the shifted `x` at a
-- place, the `c` what goes to the next one, and the `b` are borrows
variable {x q a7 c22 a10 c18 a24 c4 a28 c1 b3 b4 b5 b6 b7 b8 : ℤ}

theorem even_step_value (numbers : List ℤ) (split0 : x + 2 ^ 29 * q = t0)
    (split7 : a7 + 2 ^ 29 * c22 = 2 ^ 7 * x) (split10 : a10 + 2 ^ 28 * c18 = 2 ^ 10 * x)
    (split24 : a24 + 2 ^ 28 * c4 = 2 ^ 24 * x) (split28 : a28 + 2 ^ 29 * c1 = 2 ^ 28 * x) :
    value width true
        (t0 :: t1 :: t2 :: t3 :: t4 :: t5 :: t6 :: t7 :: t8 :: t9 :: numbers) + x * p =
      2 ^ 29 * value width false ((t1 + q) :: (t2 + a7) :: (t3 + c22 + 2 ^ 28 * b3 - a10) ::
        (t4 + 2 ^ 29 * b4 - (b3 + c18)) :: (t5 + 2 ^ 28 * b5 - b4) :: (t6 + 2 ^ 29 * b6 - b5) ::
        (t7 + 2 ^ 28 * b7 - (b6 + a24)) :: (t8 + a28 + 2 ^ 29 * b8 - (b7 + c4)) ::
        (t9 + (c1 - b8)) :: numbers) := by
  have modulus := prime_value
  simp only [value_cons, width_wide, width_narrow, Bool.not_true, Bool.not_false]
  linear_combination x * modulus - split0 - 2 ^ 57 * split7 + 2 ^ 86 * split10 +
    2 ^ 200 * split24 - 2 ^ 228 * split28

theorem even_step_window (window : EvenWindow pairs t0 t1 t2 t3 t4 t5 t6 t7 t8 t9)
    (split0 : x + 2 ^ 29 * q = t0) (range : 0 < x ∧ x < 2 ^ 29)
    (split7 : a7 + 2 ^ 29 * c22 = 2 ^ 7 * x) (split10 : a10 + 2 ^ 28 * c18 = 2 ^ 10 * x)
    (split24 : a24 + 2 ^ 28 * c4 = 2 ^ 24 * x) (split28 : a28 + 2 ^ 29 * c1 = 2 ^ 28 * x)
    (cut7 : 0 ≤ a7 ∧ a7 < 2 ^ 29) (cut10 : 0 ≤ a10 ∧ a10 < 2 ^ 28)
    (cut24 : 0 ≤ a24 ∧ a24 < 2 ^ 28) (cut28 : 0 ≤ a28 ∧ a28 < 2 ^ 29)
    (borrow3 : Borrowed 1 (2 ^ 28) (t3 + c22) b3) (borrow4 : Borrowed 1 (2 ^ 29) t4 b4)
    (borrow5 : Borrowed b4 (2 ^ 28) t5 b5) (borrow6 : Borrowed b5 (2 ^ 29) t6 b6)
    (borrow7 : Borrowed 1 (2 ^ 28) t7 b7) (borrow8 : Borrowed 1 (2 ^ 29) (t8 + a28) b8) :
    OddWindow pairs (t1 + q) (t2 + a7) (t3 + c22 + 2 ^ 28 * b3 - a10)
      (t4 + 2 ^ 29 * b4 - (b3 + c18)) (t5 + 2 ^ 28 * b5 - b4) (t6 + 2 ^ 29 * b6 - b5)
      (t7 + 2 ^ 28 * b7 - (b6 + a24)) (t8 + a28 + 2 ^ 29 * b8 - (b7 + c4)) (t9 + (c1 - b8)) := by
  have limb0 := window.limb0
  have limb2 := window.limb2
  have limb8 := window.limb8
  have bit3 := borrowed_bit borrow3
  have bit4 := borrowed_bit borrow4
  have bit5 := borrowed_bit borrow5
  have bit6 := borrowed_bit borrow6
  have bit7 := borrowed_bit borrow7
  have carried : 0 ≤ q ∧ q ≤ 3 := by omega
  have out22 : 0 ≤ c22 ∧ c22 ≤ 2 ^ 7 := by omega
  have due4 : 0 ≤ b3 + c18 ∧ b3 + c18 ≤ 2 ^ 29 := by omega
  have due7 : 0 ≤ b6 + a24 ∧ b6 + a24 ≤ 2 ^ 28 := by omega
  have due8 : 0 ≤ b7 + c4 ∧ b7 + c4 ≤ 2 ^ 29 := by omega
  have sum8 : 0 ≤ t8 + a28 ∧ t8 + a28 < 2 ^ 30 := by omega
  have raised3 := within_add id window.limb3 out22 (le_refl _) (le_refl _)
  refine ⟨within_add id window.limb1 carried (le_refl _) (by norm_num), by omega,
    within_lent id raised3 borrow3 ⟨cut10.1, le_of_lt cut10.2⟩ (Or.inl rfl) (le_refl _)
      (by norm_num) (by norm_num),
    lent_nonneg window.limb4 borrow4 due4 (Or.inl rfl) (by norm_num),
    within_lent id window.limb5 borrow5 bit4 (by omega) (by norm_num) (by norm_num) (by norm_num),
    lent_nonneg window.limb6 borrow6 (by omega) (by omega) (by norm_num),
    within_lent id window.limb7 borrow7 due7 (Or.inl rfl) (le_refl _) (by norm_num) (by norm_num),
    lent_nonneg sum8 borrow8 due8 (Or.inl rfl) (by norm_num), ?_⟩
  obtain ⟨nonnegative, below, narrow⟩ := window.limb9
  unfold Borrowed at borrow8
  refine ⟨by omega, by omega, fun some => ?_, fun negative => by omega⟩
  have small := narrow some
  omega

end EvenStep

section OddStep

variable {pairs : ℕ} {t1 t2 t3 t4 t5 t6 t7 t8 t9 t10 t11 : ℤ} (few : pairs ≤ 3)
  (window : OddWindow (pairs + 1) t1 t2 t3 t4 t5 t6 t7 t8 t9) (fresh10 : 0 ≤ t10 ∧ t10 < 2 ^ 29)
  (fresh11 : 0 ≤ t11 ∧ t11 < 2 ^ 31 + 2 ^ 10 ∧ (1 ≤ pairs → t11 < 2 ^ 28))

include few window

/-- The ninth limb of an odd round is the only one that was new in the round before. -/
theorem odd_last_limb : Within (4 ≤ pairs) (-1) (2 ^ 29) t9 :=
  ⟨fun many => by omega, window.limb9.1, window.limb9.2.2.1 (by omega)⟩

include fresh10 fresh11

theorem odd_idle_window {q : ℤ} (carried : 0 ≤ q ∧ q ≤ 3) :
    EvenWindow pairs (t2 + q) t3 t4 t5 t6 t7 t8 t9 t10 t11 := by
  have limb2 := window.limb2
  have limb4 := window.limb4
  exact ⟨by omega, within_mono (by omega) window.limb3 (by norm_num) (by norm_num), by omega,
    within_mono (by omega) window.limb5 (by norm_num) (le_refl _), window.limb6,
    within_mono (by omega) window.limb7 (by norm_num) (le_refl _), window.limb8,
    within_mono id (odd_last_limb few window) (by norm_num) (le_refl _), by omega, fresh11⟩

variable {x q a7 c21 a11 c18 a25 c4 b4 b5 b6 b7 b8 b9 : ℤ}

theorem odd_step_window (split1 : x + 2 ^ 28 * q = t1) (range : 0 < x ∧ x < 2 ^ 28)
    (split7 : a7 + 2 ^ 28 * c21 = 2 ^ 7 * x) (split11 : a11 + 2 ^ 29 * c18 = 2 ^ 11 * x)
    (split25 : a25 + 2 ^ 29 * c4 = 2 ^ 25 * x)
    (cut7 : 0 ≤ a7 ∧ a7 < 2 ^ 28) (cut11 : 0 ≤ a11 ∧ a11 < 2 ^ 29)
    (cut25 : 0 ≤ a25 ∧ a25 < 2 ^ 29)
    (borrow4 : Borrowed 1 (2 ^ 29) (t4 + c21) b4) (borrow5 : Borrowed 1 (2 ^ 28) t5 b5)
    (borrow6 : Borrowed b5 (2 ^ 29) t6 b6) (borrow7 : Borrowed b6 (2 ^ 28) t7 b7)
    (borrow8 : Borrowed 1 (2 ^ 29) t8 b8) (borrow9 : Borrowed 1 (2 ^ 28) t9 b9) :
    EvenWindow pairs (t2 + q) (t3 + a7) (t4 + c21 + 2 ^ 29 * b4 - a11)
      (t5 + 2 ^ 28 * b5 - (b4 + c18)) (t6 + 2 ^ 29 * b6 - b5) (t7 + 2 ^ 28 * b7 - b6)
      (t8 + 2 ^ 29 * b8 - (b7 + a25)) (t9 + 2 ^ 28 * b9 - (b8 + c4)) (t10 + (x - b9)) t11 := by
  have limb1 : 0 ≤ t1 ∧ t1 < 2 ^ 30 := ⟨window.limb1.1 (by omega), window.limb1.2.2⟩
  have limb2 := window.limb2
  have limb4 := window.limb4
  have bit4 := borrowed_bit borrow4
  have bit5 := borrowed_bit borrow5
  have bit6 := borrowed_bit borrow6
  have bit7 := borrowed_bit borrow7
  have bit8 := borrowed_bit borrow8
  have bit9 := borrowed_bit borrow9
  have carried : 0 ≤ q ∧ q ≤ 3 := by omega
  have out21 : 0 ≤ c21 ∧ c21 < 2 ^ 7 := by omega
  have due5 : 0 ≤ b4 + c18 ∧ b4 + c18 ≤ 2 ^ 10 := by omega
  have due8 : 0 ≤ b7 + a25 ∧ b7 + a25 ≤ 2 ^ 29 := by omega
  have due9 : 0 ≤ b8 + c4 ∧ b8 + c4 ≤ 2 ^ 24 := by omega
  have sum4 : 0 ≤ t4 + c21 ∧ t4 + c21 < 2 ^ 30 + 2 ^ 7 := by omega
  exact ⟨by omega,
    within_add (by omega) window.limb3 ⟨cut7.1, le_of_lt cut7.2⟩ (le_refl _) (by norm_num),
    lent_nonneg sum4 borrow4 ⟨cut11.1, le_of_lt cut11.2⟩ (Or.inl rfl) (by norm_num),
    within_lent (by omega) window.limb5 borrow5 due5 (Or.inl rfl) (by norm_num) (by norm_num)
      (by norm_num),
    lent_nonneg window.limb6 borrow6 (by omega) (by omega) (by norm_num),
    within_lent (by omega) window.limb7 borrow7 bit6 (by omega) (by norm_num) (by norm_num)
      (by norm_num),
    lent_nonneg window.limb8 borrow8 due8 (Or.inl rfl) (by norm_num),
    within_lent id (odd_last_limb few window) borrow9 due9 (Or.inl rfl) (by norm_num)
      (by norm_num) (by norm_num),
    by omega, fresh11⟩

omit few window fresh10 fresh11

theorem odd_step_value (numbers : List ℤ) (split1 : x + 2 ^ 28 * q = t1)
    (split7 : a7 + 2 ^ 28 * c21 = 2 ^ 7 * x) (split11 : a11 + 2 ^ 29 * c18 = 2 ^ 11 * x)
    (split25 : a25 + 2 ^ 29 * c4 = 2 ^ 25 * x) :
    value width false
        (t1 :: t2 :: t3 :: t4 :: t5 :: t6 :: t7 :: t8 :: t9 :: t10 :: numbers) + x * p =
      2 ^ 28 * value width true ((t2 + q) :: (t3 + a7) :: (t4 + c21 + 2 ^ 29 * b4 - a11) ::
        (t5 + 2 ^ 28 * b5 - (b4 + c18)) :: (t6 + 2 ^ 29 * b6 - b5) :: (t7 + 2 ^ 28 * b7 - b6) ::
        (t8 + 2 ^ 29 * b8 - (b7 + a25)) :: (t9 + 2 ^ 28 * b9 - (b8 + c4)) ::
        (t10 + (x - b9)) :: numbers) := by
  have modulus := prime_value
  simp only [value_cons, width_wide, width_narrow, Bool.not_true, Bool.not_false]
  linear_combination x * modulus - split1 - 2 ^ 57 * split7 + 2 ^ 85 * split11 + 2 ^ 199 * split25

end OddStep

/-! ## The rounds -/

theorem seen_of_range {word : UInt32} {number : ℤ} (tracked : Tracks word number)
    (range : 0 ≤ number ∧ number < 2 ^ 31) : Seen word number :=
  ⟨tracked, by omega, by omega⟩

theorem seen_of_within {word : UInt32} {keeps : Prop} {least high number : ℤ} (tracked : Tracks word number)
    (range : Within keeps least high number) (above : -2 ^ 31 ≤ least) (small : high ≤ 2 ^ 32) :
    Seen word number :=
  ⟨tracked, le_trans above range.2.1, lt_of_lt_of_le range.2.2 small⟩

theorem masked_range (wide : Bool) (word : UInt32) :
    0 ≤ ((word &&& bottomBits wide).toNat : ℤ) ∧
      ((word &&& bottomBits wide).toNat : ℤ) < 2 ^ width wide := by
  have small : (word &&& bottomBits wide).toNat < 2 ^ width wide := by
    rw [masked_word]
    exact Nat.mod_lt _ (Nat.two_pow_pos _)
  exact ⟨Int.natCast_nonneg _, by exact_mod_cast small⟩

theorem word_not_positive {x : UInt32} (positive : ¬0 < x) : x.toNat = 0 := by
  by_contra some
  exact positive (UInt32.lt_iff_toNat_lt.mpr (Nat.pos_of_ne_zero some))

theorem ten_words {words : List UInt32} {t0 t1 t2 t3 t4 t5 t6 t7 t8 t9 : ℤ} {numbers : List ℤ}
    (tracked : List.Forall₂ Tracks words
      (t0 :: t1 :: t2 :: t3 :: t4 :: t5 :: t6 :: t7 :: t8 :: t9 :: numbers)) :
    ∃ w0 w1 w2 w3 w4 w5 w6 w7 w8 w9 rest,
      words = w0 :: w1 :: w2 :: w3 :: w4 :: w5 :: w6 :: w7 :: w8 :: w9 :: rest := by
  have length := tracked.length_eq
  simp only [List.length_cons] at length
  rcases words with _ | ⟨w0, _ | ⟨w1, _ | ⟨w2, _ | ⟨w3, _ | ⟨w4, _ | ⟨w5, _ | ⟨w6, _ | ⟨w7, _ | ⟨w8,
    _ | ⟨w9, rest⟩⟩⟩⟩⟩⟩⟩⟩⟩⟩ <;> simp only [List.length_nil, List.length_cons] at length <;>
    first
    | omega
    | exact ⟨w0, w1, w2, w3, w4, w5, w6, w7, w8, w9, rest, rfl⟩

theorem even_round_spec {pairs : ℕ} {words : List UInt32}
    {t0 t1 t2 t3 t4 t5 t6 t7 t8 t9 : ℤ} {numbers : List ℤ}
    (tracked : List.Forall₂ Tracks words
      (t0 :: t1 :: t2 :: t3 :: t4 :: t5 :: t6 :: t7 :: t8 :: t9 :: numbers))
    (window : EvenWindow pairs t0 t1 t2 t3 t4 t5 t6 t7 t8 t9) :
    ∃ x s1 s2 s3 s4 s5 s6 s7 s8 s9 : ℤ,
      List.Forall₂ Tracks (evenRound words)
        (s1 :: s2 :: s3 :: s4 :: s5 :: s6 :: s7 :: s8 :: s9 :: numbers) ∧
      OddWindow pairs s1 s2 s3 s4 s5 s6 s7 s8 s9 ∧
      value width true
          (t0 :: t1 :: t2 :: t3 :: t4 :: t5 :: t6 :: t7 :: t8 :: t9 :: numbers) + x * p =
        2 ^ 29 *
          value width false (s1 :: s2 :: s3 :: s4 :: s5 :: s6 :: s7 :: s8 :: s9 :: numbers) := by
  obtain ⟨w0, w1, w2, w3, w4, w5, w6, w7, w8, w9, words, rfl⟩ := ten_words tracked
  simp only [List.forall₂_cons] at tracked
  obtain ⟨tr0, tr1, tr2, tr3, tr4, tr5, tr6, tr7, tr8, tr9, rest⟩ := tracked
  have limb0 := window.limb0
  have limb8 := window.limb8
  have word0 := tracked_value tr0 limb0.1 (by omega)
  have quotient : (w0 >>> 29).toNat = w0.toNat / 2 ^ 29 := shifted_word true w0
  have remainder : (w0 &&& bottom29Bits).toNat = w0.toNat % 2 ^ 29 := masked_word true w0
  have carried := tracks_add tr1 (tracks_self (w0 >>> 29))
  simp only [evenRound]
  generalize w0 &&& bottom29Bits = x at *
  generalize w0 >>> 29 = q at *
  have split0 : (x.toNat : ℤ) + 2 ^ 29 * q.toNat = t0 := by omega
  split_ifs with positive
  · have mask := non_zero_to_all_ones positive (by omega)
    have range : 0 < (x.toNat : ℤ) ∧ (x.toNat : ℤ) < 2 ^ 29 := by
      have some : 0 < x.toNat := UInt32.lt_iff_toNat_lt.mp positive
      omega
    have split7 : (((x <<< 7) &&& bottom29Bits).toNat : ℤ) + 2 ^ 29 * ((x >>> 22).toNat : ℤ) =
        2 ^ 7 * x.toNat := cut_shift true x 7 22 (by decide) rfl
    have split10 : (((x <<< 10) &&& bottom28Bits).toNat : ℤ) + 2 ^ 28 * ((x >>> 18).toNat : ℤ) =
        2 ^ 10 * x.toNat := cut_shift false x 10 18 (by decide) rfl
    have split24 : (((x <<< 24) &&& bottom28Bits).toNat : ℤ) + 2 ^ 28 * ((x >>> 4).toNat : ℤ) =
        2 ^ 24 * x.toNat := cut_shift false x 24 4 (by decide) rfl
    have split28 : (((x <<< 28) &&& bottom29Bits).toNat : ℤ) + 2 ^ 29 * ((x >>> 1).toNat : ℤ) =
        2 ^ 28 * x.toNat := cut_shift true x 28 1 (by decide) rfl
    have cut7 := masked_range true (x <<< 7)
    have cut10 := masked_range false (x <<< 10)
    have cut24 := masked_range false (x <<< 24)
    have cut28 : 0 ≤ (((x <<< 28) &&& bottom29Bits).toNat : ℤ) ∧
        (((x <<< 28) &&& bottom29Bits).toNat : ℤ) < 2 ^ 29 := masked_range true (x <<< 28)
    have out22 : 0 ≤ ((x >>> 22).toNat : ℤ) ∧ ((x >>> 22).toNat : ℤ) ≤ 2 ^ 7 := by
      have cut : 0 ≤ (((x <<< 7) &&& bottom29Bits).toNat : ℤ) := Int.natCast_nonneg _
      omega
    have raised3 := within_add id window.limb3 out22 (le_refl _) (le_refl _)
    have seen3 := seen_of_within (tracks_add tr3 (tracks_self (x >>> 22))) raised3 (by norm_num)
      (by norm_num)
    have seen8 := seen_of_range (tracks_add tr8 (tracks_self ((x <<< 28) &&& bottom29Bits)))
      (by omega)
    obtain ⟨b3, borrow3, word3, set4⟩ :=
      borrow_low_spec mask bit28 ((x <<< 10) &&& bottom28Bits) seen3 (by decide)
    obtain ⟨b4, b5, b6, borrow4, borrow5, borrow6, word4, word5, word6, set7⟩ :=
      borrow_middle_spec mask bit29 bit28 x
        (seen_of_range tr4 ⟨window.limb4.1, lt_trans window.limb4.2 (by norm_num)⟩)
        (seen_of_within tr5 window.limb5 (by norm_num) (by norm_num))
        (seen_of_range tr6 ⟨window.limb6.1, lt_trans window.limb6.2 (by norm_num)⟩) set4
        (by decide) (by decide)
    obtain ⟨b7, b8, borrow7, borrow8, word7, word8, word9⟩ :=
      borrow_high_even_spec mask x
        (seen_of_within tr7 window.limb7 (by norm_num) (by norm_num)) seen8 tr9 set7
    refine ⟨x.toNat, _, _, _, _, _, _, _, _, _, ?_,
      even_step_window window split0 range split7 split10 split24 split28 cut7 cut10 cut24 cut28
        borrow3 borrow4 borrow5 borrow6 borrow7 borrow8,
      even_step_value numbers split0 split7 split10 split24 split28⟩
    simp only [List.forall₂_cons]
    exact ⟨carried, tracks_add tr2 (tracks_self _), word3, word4, word5, word6, word7, word8, word9,
      rest⟩
  · have none := word_not_positive positive
    refine ⟨0, _, _, _, _, _, _, _, _, _, ?_, even_idle_window window
      (show 0 ≤ (q.toNat : ℤ) ∧ (q.toNat : ℤ) ≤ 3 by omega), ?_⟩
    · simp only [List.forall₂_cons]
      exact ⟨carried, tr2, tr3, tr4, tr5, tr6, tr7, tr8, tr9, rest⟩
    · simp only [value_cons, width_wide, width_narrow, Bool.not_true, Bool.not_false]
      rw [none] at split0
      push_cast at split0
      linear_combination -split0

theorem odd_round_spec {pairs : ℕ} (few : pairs ≤ 3) {words : List UInt32}
    {t1 t2 t3 t4 t5 t6 t7 t8 t9 t10 t11 : ℤ} {numbers : List ℤ}
    (tracked : List.Forall₂ Tracks words
      (t1 :: t2 :: t3 :: t4 :: t5 :: t6 :: t7 :: t8 :: t9 :: t10 :: numbers))
    (window : OddWindow (pairs + 1) t1 t2 t3 t4 t5 t6 t7 t8 t9) (fresh10 : 0 ≤ t10 ∧ t10 < 2 ^ 29)
    (fresh11 : 0 ≤ t11 ∧ t11 < 2 ^ 31 + 2 ^ 10 ∧ (1 ≤ pairs → t11 < 2 ^ 28)) :
    ∃ x s2 s3 s4 s5 s6 s7 s8 s9 s10 : ℤ,
      List.Forall₂ Tracks (oddRound words)
        (s2 :: s3 :: s4 :: s5 :: s6 :: s7 :: s8 :: s9 :: s10 :: numbers) ∧
      EvenWindow pairs s2 s3 s4 s5 s6 s7 s8 s9 s10 t11 ∧
      value width false
          (t1 :: t2 :: t3 :: t4 :: t5 :: t6 :: t7 :: t8 :: t9 :: t10 :: numbers) + x * p =
        2 ^ 28 *
          value width true (s2 :: s3 :: s4 :: s5 :: s6 :: s7 :: s8 :: s9 :: s10 :: numbers) := by
  obtain ⟨w1, w2, w3, w4, w5, w6, w7, w8, w9, w10, words, rfl⟩ := ten_words tracked
  simp only [List.forall₂_cons] at tracked
  obtain ⟨tr1, tr2, tr3, tr4, tr5, tr6, tr7, tr8, tr9, tr10, rest⟩ := tracked
  have limb1 : 0 ≤ t1 ∧ t1 < 2 ^ 30 := ⟨window.limb1.1 (by omega), window.limb1.2.2⟩
  have limb4 := window.limb4
  have word1 := tracked_value tr1 limb1.1 (by omega)
  have quotient : (w1 >>> 28).toNat = w1.toNat / 2 ^ 28 := shifted_word false w1
  have remainder : (w1 &&& bottom28Bits).toNat = w1.toNat % 2 ^ 28 := masked_word false w1
  have carried := tracks_add tr2 (tracks_self (w1 >>> 28))
  simp only [oddRound]
  generalize w1 &&& bottom28Bits = x at *
  generalize w1 >>> 28 = q at *
  have split1 : (x.toNat : ℤ) + 2 ^ 28 * q.toNat = t1 := by omega
  split_ifs with positive
  · have mask := non_zero_to_all_ones positive (by omega)
    have range : 0 < (x.toNat : ℤ) ∧ (x.toNat : ℤ) < 2 ^ 28 := by
      have some : 0 < x.toNat := UInt32.lt_iff_toNat_lt.mp positive
      omega
    have split7 : (((x <<< 7) &&& bottom28Bits).toNat : ℤ) + 2 ^ 28 * ((x >>> 21).toNat : ℤ) =
        2 ^ 7 * x.toNat := cut_shift false x 7 21 (by decide) rfl
    have split11 : (((x <<< 11) &&& bottom29Bits).toNat : ℤ) + 2 ^ 29 * ((x >>> 18).toNat : ℤ) =
        2 ^ 11 * x.toNat := cut_shift true x 11 18 (by decide) rfl
    have split25 : (((x <<< 25) &&& bottom29Bits).toNat : ℤ) + 2 ^ 29 * ((x >>> 4).toNat : ℤ) =
        2 ^ 25 * x.toNat := cut_shift true x 25 4 (by decide) rfl
    have cut7 := masked_range false (x <<< 7)
    have cut11 := masked_range true (x <<< 11)
    have cut25 := masked_range true (x <<< 25)
    have out21 : ((x >>> 21).toNat : ℤ) ≤ 2 ^ 7 := by
      have cut : 0 ≤ (((x <<< 7) &&& bottom28Bits).toNat : ℤ) := Int.natCast_nonneg _
      omega
    have seen4 := seen_of_range (tracks_add tr4 (tracks_self (x >>> 21))) (by omega)
    obtain ⟨b4, borrow4, word4, set5⟩ :=
      borrow_low_spec mask bit29 ((x <<< 11) &&& bottom29Bits) seen4 (by decide)
    obtain ⟨b5, b6, b7, borrow5, borrow6, borrow7, word5, word6, word7, set8⟩ :=
      borrow_middle_spec mask bit28 bit29 x
        (seen_of_within tr5 window.limb5 (by norm_num) (by norm_num))
        (seen_of_range tr6 ⟨window.limb6.1, lt_trans window.limb6.2 (by norm_num)⟩)
        (seen_of_within tr7 window.limb7 (by norm_num) (by norm_num)) set5 (by decide) (by decide)
    obtain ⟨b8, b9, borrow8, borrow9, word8, word9, word10⟩ :=
      borrow_high_odd_spec mask x
        (seen_of_range tr8 ⟨window.limb8.1, lt_trans window.limb8.2 (by norm_num)⟩)
        (seen_of_within tr9 (odd_last_limb few window) (by norm_num) (by norm_num)) tr10 set8
    refine ⟨x.toNat, _, _, _, _, _, _, _, _, _, ?_,
      odd_step_window few window fresh10 fresh11 split1 range split7 split11 split25 cut7 cut11
        cut25 borrow4 borrow5 borrow6 borrow7 borrow8 borrow9,
      odd_step_value numbers split1 split7 split11 split25⟩
    simp only [List.forall₂_cons]
    exact ⟨carried, tracks_add tr3 (tracks_self _), word4, word5, word6, word7, word8, word9, word10,
      rest⟩
  · have none := word_not_positive positive
    refine ⟨0, _, _, _, _, _, _, _, _, _, ?_, odd_idle_window few window fresh10 fresh11
      (show 0 ≤ (q.toNat : ℤ) ∧ (q.toNat : ℤ) ≤ 3 by omega), ?_⟩
    · simp only [List.forall₂_cons]
      exact ⟨carried, tr3, tr4, tr5, tr6, tr7, tr8, tr9, tr10, rest⟩
    · simp only [value_cons, width_wide, width_narrow, Bool.not_true, Bool.not_false]
      rw [none] at split1
      push_cast at split1
      linear_combination -split1

inductive Fresh : ℕ → List ℤ → Prop where
  | nil : Fresh 0 []
  | pair {pairs : ℕ} {even odd : ℤ} {numbers : List ℤ} (evenRange : 0 ≤ even ∧ even < 2 ^ 29)
      (oddRange : 0 ≤ odd ∧ odd < 2 ^ 31 + 2 ^ 10 ∧ (1 ≤ pairs → odd < 2 ^ 28))
      (later : Fresh pairs numbers) : Fresh (pairs + 1) (even :: odd :: numbers)

/-- The loop keeps the value up to a multiple of `p` and the places that it has passed. -/
theorem eliminate_spec {pairs : ℕ} (few : pairs ≤ 4) {words : List UInt32}
    {t0 t1 t2 t3 t4 t5 t6 t7 t8 t9 : ℤ} {numbers : List ℤ} (fresh : Fresh pairs numbers)
    (tracked : List.Forall₂ Tracks words
      (t0 :: t1 :: t2 :: t3 :: t4 :: t5 :: t6 :: t7 :: t8 :: t9 :: numbers))
    (window : EvenWindow pairs t0 t1 t2 t3 t4 t5 t6 t7 t8 t9) :
    ∃ m s1 s2 s3 s4 s5 s6 s7 s8 s9 : ℤ,
      List.Forall₂ Tracks (eliminate pairs words) [s1, s2, s3, s4, s5, s6, s7, s8, s9] ∧
      OddWindow 0 s1 s2 s3 s4 s5 s6 s7 s8 s9 ∧
      value width true
          (t0 :: t1 :: t2 :: t3 :: t4 :: t5 :: t6 :: t7 :: t8 :: t9 :: numbers) + m * p =
        2 ^ (29 + 57 * pairs) * value width false [s1, s2, s3, s4, s5, s6, s7, s8, s9] := by
  induction fresh generalizing words t0 t1 t2 t3 t4 t5 t6 t7 t8 t9 with
  | nil =>
      obtain ⟨x, s1, s2, s3, s4, s5, s6, s7, s8, s9, kept, after, same⟩ :=
        even_round_spec tracked window
      exact ⟨x, s1, s2, s3, s4, s5, s6, s7, s8, s9, kept, after, same⟩
  | pair evenRange oddRange later induction =>
      obtain ⟨x, s1, s2, s3, s4, s5, s6, s7, s8, s9, kept, after, first⟩ :=
        even_round_spec tracked window
      obtain ⟨y, r2, r3, r4, r5, r6, r7, r8, r9, r10, kept', after', second⟩ :=
        odd_round_spec (by omega) kept after evenRange oddRange
      obtain ⟨m, e1, e2, e3, e4, e5, e6, e7, e8, e9, final, bounds, rest⟩ :=
        induction (by omega) kept' after'
      refine ⟨x + 2 ^ 29 * y + 2 ^ 57 * m, e1, e2, e3, e4, e5, e6, e7, e8, e9, final, bounds, ?_⟩
      rw [Nat.mul_succ, ← Nat.add_assoc, pow_add]
      linear_combination first + 2 ^ 29 * second + 2 ^ 57 * rest

end PbftBlock.FieldLimbs
