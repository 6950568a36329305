import PbftBlock.DegreeReduction

/-!
# Field products

The product sums of `sm2P256Mul` and `sm2P256Square` do not overflow, and
`sm2P256ReduceDegree` spreads them exactly over the limbs that it then eliminates. What it
returns is bounded. It is the product divided by `2 ^ 257` if and only if no limb is left
below zero for the last loop.
-/

namespace PbftBlock.FieldLimbs

open PbftBlock.Library.Words
open PbftBlock.CurveAddition (p)

set_option autoImplicit false

/-! ## The first loop -/

theorem low_value (b : UInt64) : (low b).toNat = b.toNat % 2 ^ 32 := UInt64.toNat_toUInt32 b

theorem high_value (b : UInt64) : (high b).toNat = b.toNat / 2 ^ 32 := by
  have small := b.toNat_lt
  rw [high, UInt64.toNat_toUInt32, UInt64.toNat_shiftRight, Nat.shiftRight_eq_div_pow]
  change b.toNat / 2 ^ 32 % 2 ^ 32 = b.toNat / 2 ^ 32
  omega

theorem top_value (b : UInt64) : (high b >>> 25).toNat = b.toNat / 2 ^ 57 := by
  rw [UInt32.toNat_shiftRight, Nat.shiftRight_eq_div_pow, high_value]
  change b.toNat / 2 ^ 32 / 2 ^ 25 = b.toNat / 2 ^ 57
  omega

theorem middle_value_wide (b : UInt64) :
    (low b >>> 28).toNat + ((high b <<< 4) &&& bottom29Bits).toNat = b.toNat / 2 ^ 28 % 2 ^ 29 := by
  have cut : ((high b <<< 4) &&& bottom29Bits).toNat = (high b <<< 4).toNat % 2 ^ 29 :=
    masked_word true _
  rw [cut, UInt32.toNat_shiftRight, Nat.shiftRight_eq_div_pow, UInt32.toNat_shiftLeft,
    Nat.shiftLeft_eq, high_value, low_value]
  change b.toNat % 2 ^ 32 / 2 ^ 28 + b.toNat / 2 ^ 32 * 2 ^ 4 % 2 ^ 32 % 2 ^ 29 = _
  omega

theorem middle_value_narrow (b : UInt64) :
    (low b >>> 29).toNat + ((high b <<< 3) &&& bottom28Bits).toNat = b.toNat / 2 ^ 29 % 2 ^ 28 := by
  have cut : ((high b <<< 3) &&& bottom28Bits).toNat = (high b <<< 3).toNat % 2 ^ 28 :=
    masked_word false _
  rw [cut, UInt32.toNat_shiftRight, Nat.shiftRight_eq_div_pow, UInt32.toNat_shiftLeft,
    Nat.shiftLeft_eq, high_value, low_value]
  change b.toNat % 2 ^ 32 / 2 ^ 29 + b.toNat / 2 ^ 32 * 2 ^ 3 % 2 ^ 32 % 2 ^ 28 = _
  omega

theorem bottom_value (wide : Bool) (b : UInt64) :
    (low b &&& bottomBits wide).toNat = b.toNat % 2 ^ width wide := by
  rw [masked_word, low_value, Nat.mod_mod_of_dvd _ (pow_dvd_pow 2 (by cases wide <;> decide))]

/-- The word of a place: the top of the product two places before, the middle of the one
before, and the bottom of the product of the place. -/
def spreadWord (wide : Bool) (second first b : UInt64) : ℕ :=
  second.toNat / 2 ^ 57 + first.toNat / 2 ^ width (!wide) % 2 ^ width wide +
    b.toNat % 2 ^ width wide

theorem spread_from_cons (wide : Bool) (second first b : UInt64) (bs : List UInt64) :
    ∃ word : UInt32, word.toNat = spreadWord wide second first b ∧ word.toNat < 2 ^ 32 - 16 ∧
      spreadFrom wide second first (b :: bs) = word :: spreadFrom (!wide) first b bs := by
  have smallSecond := second.toNat_lt
  have top := top_value second
  cases wide with
  | true =>
      have middle := middle_value_wide first
      have bottom : (low b &&& bottom29Bits).toNat = b.toNat % 2 ^ 29 := bottom_value true b
      refine ⟨_, ?_, ?_, rfl⟩
      · simp only [UInt32.toNat_add, spreadWord, width_wide, width_narrow, Bool.not_true]
        omega
      · simp only [UInt32.toNat_add]
        omega
  | false =>
      have middle := middle_value_narrow first
      have bottom : (low b &&& bottom28Bits).toNat = b.toNat % 2 ^ 28 := bottom_value false b
      refine ⟨_, ?_, ?_, rfl⟩
      · simp only [UInt32.toNat_add, spreadWord, width_wide, width_narrow, Bool.not_false]
        omega
      · simp only [UInt32.toNat_add]
        omega

def productInts (b : List UInt64) : List ℤ := b.map fun n => (n.toNat : ℤ)

/-- What the last two products leave for the last place. -/
def spreadTop : UInt64 → UInt64 → List UInt64 → ℤ
  | second, first, [] => (second.toNat / 2 ^ 57 + first.toNat / 2 ^ 29 : ℕ)
  | _, first, b :: bs => spreadTop first b bs

theorem spread_from_value (wide : Bool) (second first : UInt64) (bs : List UInt64)
    (last : wide = decide (bs.length % 2 = 1)) :
    value width wide (ints (spreadFrom wide second first bs) ++ [spreadTop second first bs]) =
      (second.toNat / 2 ^ 57 : ℕ) + (first.toNat / 2 ^ width (!wide) : ℕ) +
        value width wide (productInts bs) := by
  induction bs generalizing wide second first with
  | nil =>
      subst last
      simp [spreadFrom, ints, spreadTop, productInts, width]
  | cons b bs induction =>
      obtain ⟨word, same, -, cons⟩ := spread_from_cons wide second first b bs
      have turn : (!wide) = decide (bs.length % 2 = 1) := by
        rw [last, List.length_cons]
        rcases Nat.mod_two_eq_zero_or_one bs.length with even | odd
        · simp [Nat.add_mod, even]
        · simp [Nat.add_mod, odd]
      have rest := induction (!wide) first b turn
      rw [cons]
      simp only [ints, List.map_cons, List.cons_append, value_cons, productInts, spreadTop] at rest ⊢
      rw [rest, same, spreadWord]
      clear rest same cons turn last
      cases wide <;>
        simp only [width_wide, width_narrow, Bool.not_true, Bool.not_false] <;> omega

/-- The words of the first loop have room for a carry. -/
theorem spread_from_room (wide : Bool) (second first : UInt64) (bs : List UInt64) :
    ∀ word ∈ spreadFrom wide second first bs, word.toNat < 2 ^ 32 - 16 := by
  induction bs generalizing wide second first with
  | nil =>
      rw [spreadFrom]
      exact List.forall_mem_nil _
  | cons b bs induction =>
      obtain ⟨word, -, room, cons⟩ := spread_from_cons wide second first b bs
      rw [cons, List.forall_mem_cons]
      exact ⟨room, induction _ _ _⟩

theorem second_word (b0 b1 : UInt64) :
    (((low b0 >>> 29) ||| ((high b0 <<< 3) &&& bottom28Bits)) + (low b1 &&& bottom28Bits)).toNat =
      b0.toNat / 2 ^ 29 % 2 ^ 28 + b1.toNat % 2 ^ 28 := by
  have middle := middle_value_narrow b0
  have bottom : (low b1 &&& bottom28Bits).toNat = b1.toNat % 2 ^ 28 := bottom_value false b1
  have few : (low b0 >>> 29).toNat < 2 ^ 3 := by
    have moved : (low b0 >>> 29).toNat = (low b0).toNat / 2 ^ 29 := shifted_word true (low b0)
    have small := (low b0).toNat_lt
    omega
  have cut := cut_shift false (high b0) 3 25 (by decide) rfl
  have eights : ∃ k, ((high b0 <<< 3) &&& bottom28Bits).toNat = 2 ^ 3 * k := by
    have narrow : (((high b0 <<< 3) &&& bottom28Bits).toNat : ℤ) +
        2 ^ 28 * ((high b0 >>> 25).toNat : ℤ) = 2 ^ 3 * (high b0).toNat := cut
    exact ⟨((high b0 <<< 3) &&& bottom28Bits).toNat / 2 ^ 3, by omega⟩
  obtain ⟨k, multiple⟩ := eights
  have disjoint : ((low b0 >>> 29) ||| ((high b0 <<< 3) &&& bottom28Bits)).toNat =
      (low b0 >>> 29).toNat + ((high b0 <<< 3) &&& bottom28Bits).toNat := by
    rw [UInt32.toNat_or, multiple, Nat.or_comm, ← Nat.two_pow_add_eq_or_of_lt few, Nat.add_comm]
  rw [UInt32.toNat_add, disjoint, middle, bottom]
  omega

theorem last_word {b15 b16 : UInt64} (small : b16.toNat < 2 ^ 60) :
    ((high b15 >>> 25) + (low b16 >>> 29) + (high b16 <<< 3)).toNat =
      b15.toNat / 2 ^ 57 + b16.toNat / 2 ^ 29 := by
  have top := top_value b15
  have large := b15.toNat_lt
  have moved : (low b16 >>> 29).toNat = (low b16).toNat / 2 ^ 29 := shifted_word true (low b16)
  have bottom := low_value b16
  have up : (high b16 <<< 3).toNat = b16.toNat / 2 ^ 32 * 2 ^ 3 % 2 ^ 32 := by
    rw [UInt32.toNat_shiftLeft, Nat.shiftLeft_eq, high_value]
    rfl
  simp only [UInt32.toNat_add]
  omega

theorem carry_chain_few (wide : Bool) {carry : UInt32} (words : List UInt32)
    (few : carry.toNat < 16) : (carryChain wide carry words).2.toNat < 16 := by
  induction words generalizing wide carry with
  | nil => exact few
  | cons word words induction =>
      rw [carryChain]
      apply induction
      rw [shifted_word]
      have small := (word + carry).toNat_lt
      cases wide <;> simp only [width_wide, width_narrow] <;> omega

/-- A chain over words with room for a carry keeps their value, with a last word that takes
the last carry. -/
theorem carry_chain_exact (wide : Bool) {words : List UInt32} {last : UInt32}
    (room : ∀ word ∈ words, word.toNat < 2 ^ 32 - 16) (roomLast : last.toNat < 2 ^ 32 - 16) :
    value width wide (ints ((carryChain wide 0 words).1 ++ [last + (carryChain wide 0 words).2])) =
      value width wide (ints (words ++ [last])) := by
  have numbers : ∀ number ∈ ints words, 0 ≤ number ∧ number < 2 ^ 32 - 16 := by
    rw [ints, List.forall_mem_map]
    intro word member
    have small := room word member
    omega
  have none := wraps_eq_zero wide (show (0 : ℤ) ≤ 0 ∧ (0 : ℤ) < 16 by decide) numbers
  have kept := carry_chain_value wide 0 (tracked_ints words)
  have few := carry_chain_few wide words (show (0 : UInt32).toNat < 16 by decide)
  have sum : ((last + (carryChain wide 0 words).2).toNat : ℤ) =
      last.toNat + (carryChain wide 0 words).2.toNat := by
    rw [UInt32.toNat_add]
    omega
  have sizes : (ints (carryChain wide 0 words).1).length = (ints words).length := by
    rw [ints_length, ints_length, carry_chain_length]
  simp only [ints, List.map_append, List.map_cons, List.map_nil] at kept sizes none ⊢
  rw [UInt32.toNat_zero, Nat.cast_zero, none, value_append_one] at kept
  rw [value_append_one, value_append_one, sum, ← sizes]
  linear_combination kept

theorem spread_top_eq (second first : UInt64) (bs : List UInt64) :
    spreadTop second first bs =
      (((second :: first :: bs).getD bs.length 0).toNat / 2 ^ 57 +
        ((second :: first :: bs).getD (bs.length + 1) 0).toNat / 2 ^ 29 : ℕ) := by
  induction bs generalizing second first with
  | nil => rfl
  | cons b bs induction =>
      rw [spreadTop, induction]
      rfl

theorem spread_words_room (b : List UInt64) :
    ∀ word ∈ spreadWords b, word.toNat < 2 ^ 32 - 16 := by
  rw [spreadWords, List.forall_mem_cons]
  refine ⟨?_, spread_from_room true _ _ _⟩
  rw [second_word]
  omega

theorem spread_value {b : List UInt64} (seventeen : b.length = 17)
    (small : (b.getD 16 0).toNat < 2 ^ 60) :
    value width true (ints (spread b)) = value width true (productInts b) := by
  have bottom : (low (b.getD 0 0) &&& bottom29Bits).toNat = (b.getD 0 0).toNat % 2 ^ 29 :=
    bottom_value true _
  have last : (spreadLast b).toNat = _ := last_word small
  have lastSmall : (spreadLast b).toNat < 2 ^ 32 - 16 := by
    have large := (b.getD 15 0).toNat_lt
    omega
  have kept := carry_chain_exact false (spread_words_room b) lastSmall
  rcases b with _ | ⟨b0, _ | ⟨b1, rest⟩⟩
  · cases seventeen
  · cases seventeen
  have length : rest.length = 15 := by simpa using seventeen
  have top := spread_top_eq b0 b1 rest
  rw [length, ← last] at top
  have first := second_word b0 b1
  have later := spread_from_value true b0 b1 rest (by rw [length]; rfl)
  have whole : ints (spread (b0 :: b1 :: rest)) = ((low b0 &&& bottom29Bits).toNat : ℤ) ::
      ints ((carryChain false 0 (spreadWords (b0 :: b1 :: rest))).1 ++
        [spreadLast (b0 :: b1 :: rest) +
          (carryChain false 0 (spreadWords (b0 :: b1 :: rest))).2]) := rfl
  have words : ints (spreadWords (b0 :: b1 :: rest) ++ [spreadLast (b0 :: b1 :: rest)]) =
      ((b0.toNat / 2 ^ 29 % 2 ^ 28 + b1.toNat % 2 ^ 28 : ℕ) : ℤ) ::
        (ints (spreadFrom true b0 b1 rest) ++ [spreadTop b0 b1 rest]) := by
    rw [top, ← first]
    simp only [ints, List.map_append, List.map_cons, List.map_nil]
    rfl
  rw [whole, value_cons, Bool.not_true, kept, words, value_cons, Bool.not_false, later]
  simp only [productInts, List.map_cons, value_cons, width_wide, width_narrow, Bool.not_true,
    Bool.not_false]
  simp only [List.getD_cons_zero] at bottom
  clear kept words whole later first top last lastSmall
  omega

theorem spread_from_length (wide : Bool) (second first : UInt64) (bs : List UInt64) :
    (spreadFrom wide second first bs).length = bs.length := by
  induction bs generalizing wide second first with
  | nil => cases wide <;> rfl
  | cons b bs induction =>
      obtain ⟨word, -, -, cons⟩ := spread_from_cons wide second first b bs
      rw [cons, List.length_cons, induction, List.length_cons]

theorem fresh_of_below {pairs : ℕ} {limbs : List UInt32} {last : UInt32}
    (length : limbs.length = 2 * pairs + 1) (below : Below (fun wide => 2 ^ width wide) true limbs)
    (small : last.toNat < 2 ^ 31 + 2 ^ 10) : Fresh (pairs + 1) (ints (limbs ++ [last])) := by
  induction pairs generalizing limbs with
  | zero =>
      rcases limbs with _ | ⟨even, _ | ⟨odd, rest⟩⟩
      · cases length
      · obtain ⟨first, -⟩ := below
        simp only [width_wide] at first
        rw [List.cons_append, ints_cons, List.nil_append, ints_cons]
        exact Fresh.pair (by omega) (by omega) Fresh.nil
      · cases length
  | succ pairs induction =>
      rcases limbs with _ | ⟨even, _ | ⟨odd, rest⟩⟩
      · cases length
      · simp at length
      · obtain ⟨first, second, later⟩ := below
        simp only [width_wide, Bool.not_true, width_narrow] at first second
        have size : rest.length = 2 * pairs + 1 := by
          simp only [List.length_cons] at length
          omega
        rw [List.cons_append, ints_cons, List.cons_append, ints_cons]
        exact Fresh.pair (by omega) (by omega) (induction size later)

theorem spread_window {b : List UInt64} (seventeen : b.length = 17)
    (small : (b.getD 16 0).toNat < 2 ^ 60) :
    ∃ t0 t1 t2 t3 t4 t5 t6 t7 t8 t9 numbers,
      ints (spread b) = t0 :: t1 :: t2 :: t3 :: t4 :: t5 :: t6 :: t7 :: t8 :: t9 :: numbers ∧
        EvenWindow 4 t0 t1 t2 t3 t4 t5 t6 t7 t8 t9 ∧ Fresh 4 numbers := by
  have length : (carryChain false 0 (spreadWords b)).1.length = 16 := by
    rw [carry_chain_length, spreadWords, List.length_cons, spread_from_length, List.length_drop,
      seventeen]
  have below := carry_chain_below false 0 (spreadWords b)
  have few := carry_chain_few false (spreadWords b) (show (0 : UInt32).toNat < 16 by decide)
  have last : (spreadLast b + (carryChain false 0 (spreadWords b)).2).toNat < 2 ^ 31 + 2 ^ 10 := by
    have word : (spreadLast b).toNat = _ := last_word small
    have large := (b.getD 15 0).toNat_lt
    rw [UInt32.toNat_add]
    omega
  have bottom : (low (b.getD 0 0) &&& bottom29Bits).toNat = (b.getD 0 0).toNat % 2 ^ 29 :=
    bottom_value true _
  rw [spread]
  generalize (carryChain false 0 (spreadWords b)).1 = limbs at length below ⊢
  rcases limbs with _ | ⟨c1, _ | ⟨c2, _ | ⟨c3, _ | ⟨c4, _ | ⟨c5, _ | ⟨c6, _ | ⟨c7, _ | ⟨c8,
    _ | ⟨c9, rest⟩⟩⟩⟩⟩⟩⟩⟩⟩ <;> simp at length
  obtain ⟨h1, h2, h3, h4, h5, h6, h7, h8, h9, later⟩ := below
  simp only [width_wide, width_narrow, Bool.not_true, Bool.not_false] at h1 h2 h3 h4 h5 h6 h7 h8 h9
  refine ⟨_, _, _, _, _, _, _, _, _, _, _, rfl, ?_, fresh_of_below length later last⟩
  clear later last few small length
  constructor <;> simp only [Within] <;> omega

/-! ## The third loop -/

theorem regroup_pair {first second : UInt32} {s t : ℤ} (odd : Tracks first s)
    (even : Tracks second t) (range : 0 ≤ t ∧ t < 2 ^ 31) :
    Tracks (first + ((second <<< 28) &&& bottom29Bits)) (s + 2 ^ 28 * (t % 2)) ∧
      Tracks (second >>> 1) (t / 2) := by
  have same := tracked_value even range.1 (by omega)
  have cut : (((second <<< 28) &&& bottom29Bits).toNat : ℤ) + 2 ^ 29 * ((second >>> 1).toNat : ℤ) =
      2 ^ 28 * second.toNat := cut_shift true second 28 1 (by decide) rfl
  have half : (second >>> 1).toNat = second.toNat / 2 := by
    rw [UInt32.toNat_shiftRight, Nat.shiftRight_eq_div_pow]
    rfl
  have bit : (((second <<< 28) &&& bottom29Bits).toNat : ℤ) = 2 ^ 28 * (t % 2) := by omega
  have halved : ((second >>> 1).toNat : ℤ) = t / 2 := by omega
  constructor
  · rw [← bit]
    exact tracks_add odd (tracks_self _)
  · rw [← halved]
    exact tracks_self _

def regrouped (s1 s2 s3 s4 s5 s6 s7 s8 s9 : ℤ) : List ℤ :=
  [s1 + 2 ^ 28 * (s2 % 2), s2 / 2, s3 + 2 ^ 28 * (s4 % 2), s4 / 2, s5 + 2 ^ 28 * (s6 % 2), s6 / 2,
    s7 + 2 ^ 28 * (s8 % 2), s8 / 2, s9]

theorem regroup_tracked {words : List UInt32} {s1 s2 s3 s4 s5 s6 s7 s8 s9 : ℤ}
    (tracked : List.Forall₂ Tracks words [s1, s2, s3, s4, s5, s6, s7, s8, s9])
    (window : OddWindow 0 s1 s2 s3 s4 s5 s6 s7 s8 s9) :
    List.Forall₂ Tracks (regroup words) (regrouped s1 s2 s3 s4 s5 s6 s7 s8 s9) := by
  have nine : words.length = 9 := tracked.length_eq
  obtain ⟨w1, w2, w3, w4, w5, w6, w7, w8, w9, rfl⟩ := nine_limbs nine
  simp only [List.forall₂_cons] at tracked
  obtain ⟨h1, h2, h3, h4, h5, h6, h7, h8, h9, -⟩ := tracked
  have r2 := window.limb2
  have r4 := window.limb4
  have r6 := window.limb6
  have r8 := window.limb8
  have p2 := regroup_pair h1 h2 (by omega)
  have p4 := regroup_pair h3 h4 (by omega)
  have p6 := regroup_pair h5 h6 (by omega)
  have p8 := regroup_pair h7 h8 (by omega)
  simp only [regroup, regrouped, List.forall₂_cons]
  exact ⟨p2.1, p2.2, p4.1, p4.2, p6.1, p6.2, p8.1, p8.2, h9, List.Forall₂.nil⟩

theorem regrouped_value (s1 s2 s3 s4 s5 s6 s7 s8 s9 : ℤ) :
    value width true (regrouped s1 s2 s3 s4 s5 s6 s7 s8 s9) =
      value width false [s1, s2, s3, s4, s5, s6, s7, s8, s9] := by
  have h2 := Int.emod_add_mul_ediv s2 2
  have h4 := Int.emod_add_mul_ediv s4 2
  have h6 := Int.emod_add_mul_ediv s6 2
  have h8 := Int.emod_add_mul_ediv s8 2
  simp only [regrouped, value_cons, value_nil, width_wide, width_narrow, Bool.not_true,
    Bool.not_false]
  linear_combination 2 ^ 28 * h2 + 2 ^ 85 * h4 + 2 ^ 142 * h6 + 2 ^ 199 * h8

/-- The words of a chain with the carry of the limb before, as they are cut. -/
def totals : Bool → UInt32 → List UInt32 → List UInt32
  | _, _, [] => []
  | wide, carry, word :: words =>
      (word + carry) :: totals (!wide) ((word + carry) >>> UInt32.ofNat (width wide)) words

/-- What a word counts that stands for a negative number, in multiples of `2 ^ 32`. -/
def excess (total : UInt32) : ℤ := if total.toNat < 2 ^ 31 then 0 else 1

theorem chain_pair {w1 w2 carry : UInt32} {f1 f2 : ℤ} (words : List UInt32) (numbers : List ℤ)
    (few : carry.toNat < 8) (first : Tracks w1 f1) (second : Tracks w2 f2)
    (range : -2 ^ 30 ≤ f1 ∧ f1 < 2 ^ 30 + 2 ^ 29) (small : 0 ≤ f2 ∧ f2 < 2 ^ 30) :
    ∃ next total : UInt32, next.toNat < 8 ∧ f2 / 2 ^ 28 ≤ next.toNat ∧
      totals true carry (w1 :: w2 :: words) = (w1 + carry) :: total :: totals true next words ∧
      wraps true carry.toNat (f1 :: f2 :: numbers) =
        excess (w1 + carry) :: 0 :: wraps true next.toNat numbers := by
  have total : ((w1 + carry).toNat : ℤ) = (f1 + carry.toNat) % 2 ^ 32 :=
    tracks_add first (tracks_self carry)
  have below := (w1 + carry).toNat_lt
  have moved : ((w1 + carry) >>> 29).toNat = (w1 + carry).toNat / 2 ^ 29 := shifted_word true _
  have sum : ((w2 + ((w1 + carry) >>> 29)).toNat : ℤ) =
      (f2 + ((w1 + carry) >>> 29).toNat) % 2 ^ 32 := tracks_add second (tracks_self _)
  have after : ((w2 + ((w1 + carry) >>> 29)) >>> 28).toNat =
      (w2 + ((w1 + carry) >>> 29)).toNat / 2 ^ 28 := shifted_word false _
  refine ⟨(w2 + ((w1 + carry) >>> 29)) >>> 28, w2 + ((w1 + carry) >>> 29), by omega, by omega, rfl,
    ?_⟩
  have wrapped : -((f1 + carry.toNat) / 2 ^ 32) = excess (w1 + carry) := by
    rw [excess]
    split <;> omega
  have passed : (f1 + (carry.toNat : ℤ)) % (2 ^ 32 : ℤ) / (2 ^ 29 : ℤ) =
      (((w1 + carry) >>> 29).toNat : ℤ) := by omega
  have none : -((f2 + (((w1 + carry) >>> 29).toNat : ℤ)) / 2 ^ 32) = 0 := by omega
  have next : (f2 + (((w1 + carry) >>> 29).toNat : ℤ)) % (2 ^ 32 : ℤ) / (2 ^ 28 : ℤ) =
      (((w2 + ((w1 + carry) >>> 29)) >>> 28).toNat : ℤ) := by omega
  simp only [wraps, width_wide, width_narrow, Bool.not_true, Bool.not_false]
  rw [wrapped, passed, none, next]

/-- The limbs of the result that a negative number can reach have no top bit before they are
cut. -/
def Unwrapped (words : List UInt32) : Prop :=
  ∀ k < 4, ((totals true 0 words).getD (2 * k) 0).toNat < 2 ^ 31

instance (words : List UInt32) : Decidable (Unwrapped words) :=
  inferInstanceAs (Decidable (∀ k < 4, _))

theorem wraps_last (carry f : ℤ) (range : -1 ≤ f ∧ f < 2 ^ 31 + 2 ^ 29)
    (few : 0 ≤ carry ∧ carry < 8) (covered : f < 0 → 1 ≤ carry) : wraps true carry [f] = [0] := by
  have none : -((f + carry) / 2 ^ 32) = 0 := by
    have nonnegative : 0 ≤ f + carry := by
      by_cases negative : f < 0
      · have enough := covered negative
        omega
      · omega
    omega
  rw [wraps, none, wraps]

theorem excess_bit (total : UInt32) : 0 ≤ excess total ∧ excess total ≤ 1 := by
  rw [excess]
  split <;> decide

theorem excess_eq_zero_iff (total : UInt32) : excess total = 0 ↔ total.toNat < 2 ^ 31 := by
  rw [excess]
  split <;> omega

/-- The wraps of the third loop have no value only where there is none. -/
theorem regrouped_wraps {words : List UInt32} {s1 s2 s3 s4 s5 s6 s7 s8 s9 : ℤ}
    (tracked : List.Forall₂ Tracks words (regrouped s1 s2 s3 s4 s5 s6 s7 s8 s9))
    (window : OddWindow 0 s1 s2 s3 s4 s5 s6 s7 s8 s9) :
    0 ≤ value width true (wraps true 0 (regrouped s1 s2 s3 s4 s5 s6 s7 s8 s9)) ∧
      value width true (wraps true 0 (regrouped s1 s2 s3 s4 s5 s6 s7 s8 s9)) < 2 ^ 172 ∧
      (value width true (wraps true 0 (regrouped s1 s2 s3 s4 s5 s6 s7 s8 s9)) = 0 ↔
        Unwrapped words) := by
  have nine : words.length = 9 := tracked.length_eq
  obtain ⟨w1, w2, w3, w4, w5, w6, w7, w8, w9, rfl⟩ := nine_limbs nine
  simp only [regrouped, List.forall₂_cons] at tracked ⊢
  obtain ⟨h1, h2, h3, h4, h5, h6, h7, h8, h9, -⟩ := tracked
  obtain ⟨r1, r2, r3, r4, r5, r6, r7, r8, r9⟩ := window
  simp only [Within] at r1 r3 r5 r7
  obtain ⟨c2, u2, few2, -, total2, wraps2⟩ := chain_pair [w3, w4, w5, w6, w7, w8, w9]
    [s3 + 2 ^ 28 * (s4 % 2), s4 / 2, s5 + 2 ^ 28 * (s6 % 2), s6 / 2, s7 + 2 ^ 28 * (s8 % 2), s8 / 2,
      s9] (show (0 : UInt32).toNat < 8 by decide) h1 h2 (by omega) (by omega)
  obtain ⟨c4, u4, few4, -, total4, wraps4⟩ := chain_pair [w5, w6, w7, w8, w9]
    [s5 + 2 ^ 28 * (s6 % 2), s6 / 2, s7 + 2 ^ 28 * (s8 % 2), s8 / 2, s9] few2 h3 h4 (by omega)
    (by omega)
  obtain ⟨c6, u6, few6, -, total6, wraps6⟩ := chain_pair [w7, w8, w9]
    [s7 + 2 ^ 28 * (s8 % 2), s8 / 2, s9] few4 h5 h6 (by omega) (by omega)
  obtain ⟨c8, u8, few8, carried, total8, wraps8⟩ := chain_pair [w9] [s9] few6 h7 h8 (by omega)
    (by omega)
  have last := wraps_last c8.toNat s9 (by omega) (by omega) (by omega)
  have list : wraps true 0 [s1 + 2 ^ 28 * (s2 % 2), s2 / 2, s3 + 2 ^ 28 * (s4 % 2), s4 / 2,
      s5 + 2 ^ 28 * (s6 % 2), s6 / 2, s7 + 2 ^ 28 * (s8 % 2), s8 / 2, s9] =
      [excess (w1 + 0), 0, excess (w3 + c2), 0, excess (w5 + c4), 0, excess (w7 + c6), 0, 0] := by
    rw [← last, ← wraps8, ← wraps6, ← wraps4, ← wraps2]
    rfl
  have words : totals true 0 [w1, w2, w3, w4, w5, w6, w7, w8, w9] =
      (w1 + 0) :: u2 :: (w3 + c2) :: u4 :: (w5 + c4) :: u6 :: (w7 + c6) :: u8 ::
        totals true c8 [w9] := by
    rw [total2, total4, total6, total8]
  have first := excess_bit (w1 + 0)
  have second := excess_bit (w3 + c2)
  have third := excess_bit (w5 + c4)
  have fourth := excess_bit (w7 + c6)
  have clear : Unwrapped [w1, w2, w3, w4, w5, w6, w7, w8, w9] ↔
      excess (w1 + 0) = 0 ∧ excess (w3 + c2) = 0 ∧ excess (w5 + c4) = 0 ∧
        excess (w7 + c6) = 0 := by
    simp only [excess_eq_zero_iff, Unwrapped, words]
    constructor
    · intro all
      exact ⟨all 0 (by decide), all 1 (by decide), all 2 (by decide), all 3 (by decide)⟩
    · intro all k small
      obtain ⟨h0, h1, h2, h3⟩ := all
      interval_cases k <;> assumption
  rw [list, clear]
  simp only [value_cons, value_nil, width_wide, width_narrow, Bool.not_true, Bool.not_false]
  clear list words clear last total2 total4 total6 total8 wraps2 wraps4 wraps6 wraps8
  clear h1 h2 h3 h4 h5 h6 h7 h8 h9 r1 r2 r3 r4 r5 r6 r7 r8 r9
  omega

/-- The words of `sm2P256ReduceDegree` before the carries of the third loop. -/
def lastWords (b : List UInt64) : List UInt32 := regroup (eliminate 4 (spread b))

theorem two_pow_ne_zero (n : ℕ) : (2 : ZMod p) ^ n ≠ 0 := by
  apply pow_ne_zero
  intro zero
  have divides : p ∣ 2 := (ZMod.natCast_eq_zero_iff 2 p).mp (by exact_mod_cast zero)
  exact absurd (Nat.le_of_dvd (by decide) divides) (by decide)

/-- The words before the third loop stand for numbers whose value is that of the products
divided by `2 ^ 257`. -/
theorem last_words_spec {b : List UInt64} (seventeen : b.length = 17)
    (small : (b.getD 16 0).toNat < 2 ^ 60) :
    ∃ s1 s2 s3 s4 s5 s6 s7 s8 s9 : ℤ,
      List.Forall₂ Tracks (lastWords b) (regrouped s1 s2 s3 s4 s5 s6 s7 s8 s9) ∧
      OddWindow 0 s1 s2 s3 s4 s5 s6 s7 s8 s9 ∧
      ((value width true (productInts b) : ℤ) : ZMod p) =
        2 ^ 257 * (value width true (regrouped s1 s2 s3 s4 s5 s6 s7 s8 s9) : ℤ) := by
  obtain ⟨t0, t1, t2, t3, t4, t5, t6, t7, t8, t9, numbers, list, window, fresh⟩ :=
    spread_window seventeen small
  have start := tracked_ints (spread b)
  rw [list] at start
  obtain ⟨m, s1, s2, s3, s4, s5, s6, s7, s8, s9, kept, after, same⟩ :=
    eliminate_spec (by decide) fresh start window
  refine ⟨s1, s2, s3, s4, s5, s6, s7, s8, s9, regroup_tracked kept after, after, ?_⟩
  rw [← list, spread_value seventeen small, ← regrouped_value] at same
  have cast := congrArg (fun n : ℤ => (n : ZMod p)) same
  simp only [Int.cast_add, Int.cast_mul, Int.cast_pow, Int.cast_ofNat, Int.cast_natCast,
    ZMod.natCast_self, mul_zero, add_zero] at cast
  exact cast

theorem last_words_nine {b : List UInt64} (seventeen : b.length = 17)
    (small : (b.getD 16 0).toNat < 2 ^ 60) : (lastWords b).length = 9 := by
  obtain ⟨s1, s2, s3, s4, s5, s6, s7, s8, s9, tracked, -, -⟩ := last_words_spec seventeen small
  exact tracked.length_eq

/-- The reduction returns a bounded element, and it divides by `2 ^ 257` if and only if no
word of the third loop stands for a negative number. -/
theorem reduce_degree_spec {b : List UInt64} (seventeen : b.length = 17)
    (small : (b.getD 16 0).toNat < 2 ^ 60) :
    Bounded (sm2P256ReduceDegree b) ∧
      ((val (sm2P256ReduceDegree b) : ZMod p) =
          (value width true (productInts b) : ℤ) * (2 ^ 257)⁻¹ ↔ Unwrapped (lastWords b)) := by
  obtain ⟨s1, s2, s3, s4, s5, s6, s7, s8, s9, tracked, window, exact⟩ :=
    last_words_spec seventeen small
  obtain ⟨bounded, result⟩ := settle_spec (last_words_nine seventeen small) tracked
  obtain ⟨nonnegative, less, clear⟩ := regrouped_wraps tracked window
  have final : (val (sm2P256ReduceDegree b) : ZMod p) = _ := result
  refine ⟨bounded, ?_⟩
  rw [← clear, final, exact, mul_comm _ (_ : ZMod p)⁻¹, inv_mul_cancel_left₀ (two_pow_ne_zero 257),
    Int.cast_add, add_eq_left, Int.cast_mul, Int.cast_pow, Int.cast_ofNat,
    mul_eq_zero_iff_left (two_pow_ne_zero 32), ZMod.intCast_zmod_eq_zero_iff_dvd]
  constructor
  · intro multiple
    exact Int.eq_zero_of_dvd_of_nonneg_of_lt nonnegative (lt_trans less (by decide)) multiple
  · intro none
    rw [none]
    exact dvd_zero _

/-! ## Product sums -/

section Parametric

variable {R S : Type} [Add R] [Add S] {rel : R → S → Prop} {f : UInt32 → UInt32 → ℕ → R}
  {g : UInt32 → UInt32 → ℕ → S} {a b c d : List UInt32}
  (closed : ∀ {x u y v}, rel x y → rel u v → rel (x + u) (y + v))

include closed

theorem mul_sums_related
    (leaf : ∀ i j, ∀ s < 3,
      rel (f (a.getD i 0) (b.getD j 0) s) (g (c.getD i 0) (d.getD j 0) s)) :
    List.Forall₂ rel (mulSums f a b) (mulSums g c d) := by
  simp only [mulSums, List.forall₂_cons]
  refine ⟨?_, ?_, ?_, ?_, ?_, ?_, ?_, ?_, ?_, ?_, ?_, ?_, ?_, ?_, ?_, ?_, ?_, List.Forall₂.nil⟩ <;>
    repeat' first
    | exact leaf _ _ _ (by decide)
    | apply closed

theorem square_sums_related
    (leaf : ∀ i j, ∀ s < 3,
      rel (f (a.getD i 0) (a.getD j 0) s) (g (c.getD i 0) (c.getD j 0) s)) :
    List.Forall₂ rel (squareSums f a) (squareSums g c) := by
  simp only [squareSums, List.forall₂_cons]
  refine ⟨?_, ?_, ?_, ?_, ?_, ?_, ?_, ?_, ?_, ?_, ?_, ?_, ?_, ?_, ?_, ?_, ?_, List.Forall₂.nil⟩ <;>
    repeat' first
    | exact leaf _ _ _ (by decide)
    | apply closed

end Parametric

def natTerm (a b : UInt32) (shift : ℕ) : ℕ := a.toNat * b.toNat * 2 ^ shift

theorem term_value (a b : UInt32) {shift : ℕ} (small : shift < 64) :
    (term a b shift).toNat = natTerm a b shift % 2 ^ 64 := by
  have place : (UInt64.ofNat shift).toNat = shift := by
    rw [UInt64.toNat_ofNat']
    omega
  rw [term, natTerm, UInt64.toNat_mul, UInt64.toNat_shiftLeft, UInt32.toNat_toUInt64,
    UInt32.toNat_toUInt64, place, Nat.mod_eq_of_lt small, Nat.shiftLeft_eq, Nat.mul_mod_mod,
    Nat.mul_assoc]

theorem sum_value {x y : UInt64} {m n : ℕ} (first : x.toNat = m % 2 ^ 64)
    (second : y.toNat = n % 2 ^ 64) : (x + y).toNat = (m + n) % 2 ^ 64 := by
  rw [UInt64.toNat_add, first, second, ← Nat.add_mod]

def largest : List UInt32 :=
  [0x3FFFFFFF, 0x1FFFFFFF, 0x3FFFFFFF, 0x1FFFFFFF, 0x3FFFFFFF, 0x1FFFFFFF, 0x3FFFFFFF, 0x1FFFFFFF,
    0x3FFFFFFF]

theorem limb_le_largest {a : List UInt32} (bounded : Bounded a) (i : ℕ) :
    (a.getD i 0).toNat ≤ (largest.getD i 0).toNat := by
  obtain ⟨a0, a1, a2, a3, a4, a5, a6, a7, a8, rfl, h0, h1, h2, h3, h4, h5, h6, h7, h8⟩ :=
    bounded_limbs bounded
  rcases i with _ | _ | _ | _ | _ | _ | _ | _ | _ | i
  all_goals
    simp only [largest, List.getD_cons_zero, List.getD_cons_succ, List.getD_nil, UInt32.reduceToNat]
    omega

theorem nat_term_mono {a b c d : UInt32} (first : a.toNat ≤ c.toNat) (second : b.toNat ≤ d.toNat)
    (shift : ℕ) : natTerm a b shift ≤ natTerm c d shift :=
  Nat.mul_le_mul_right _ (Nat.mul_le_mul first second)

/-- Words that are sums modulo `2 ^ 64` are the sums where these fit. -/
theorem exact_of_bounds {xs : List UInt64} {sums most : List ℕ}
    (words : List.Forall₂ (fun x n => x.toNat = n % 2 ^ 64) xs sums)
    (bounds : List.Forall₂ (· ≤ ·) sums most) (fits : ∀ m ∈ most, m < 2 ^ 64) :
    xs.map UInt64.toNat = sums := by
  induction words generalizing most with
  | nil => rfl
  | cons same _ induction =>
      cases bounds with
      | cons less later =>
          rw [List.forall_mem_cons] at fits
          rw [List.map_cons, same, Nat.mod_eq_of_lt (Nat.lt_of_le_of_lt less fits.1),
            induction later fits.2]

theorem product_ints_eq {xs : List UInt64} {sums : List ℕ} (exact : xs.map UInt64.toNat = sums) :
    productInts xs = sums.map fun n : ℕ => (n : ℤ) := by
  rw [← exact, List.map_map]
  rfl

theorem square_sums_eq (a : List UInt32) : squareSums natTerm a = mulSums natTerm a a := by
  simp only [squareSums, mulSums, natTerm, List.cons.injEq, true_and, and_true]
  refine ⟨?_, ?_, ?_, ?_, ?_, ?_, ?_, ?_, ?_, ?_, ?_, ?_, ?_, ?_, ?_⟩ <;> ring

section Sums

variable {a b : List UInt32} (first : Bounded a)

include first

theorem mul_sums_exact (second : Bounded b) :
    (mulSums term a b).map UInt64.toNat = mulSums natTerm a b := by
  refine exact_of_bounds
    (mul_sums_related sum_value fun i j s small => term_value _ _ (by omega))
    (mul_sums_related Nat.add_le_add fun i j s small =>
      nat_term_mono (limb_le_largest first i) (limb_le_largest second j) s) ?_
  decide

theorem square_sums_exact : (squareSums term a).map UInt64.toNat = squareSums natTerm a := by
  refine exact_of_bounds
    (square_sums_related sum_value fun i j s small => term_value _ _ (by omega))
    (square_sums_related Nat.add_le_add fun i j s small =>
      nat_term_mono (limb_le_largest first i) (limb_le_largest first j) s) ?_
  decide

theorem nat_sums_value (second : Bounded b) :
    value width true ((mulSums natTerm a b).map fun n : ℕ => (n : ℤ)) = val a * val b := by
  obtain ⟨a0, a1, a2, a3, a4, a5, a6, a7, a8, rfl⟩ := nine_limbs first.nine
  obtain ⟨b0, b1, b2, b3, b4, b5, b6, b7, b8, rfl⟩ := nine_limbs second.nine
  simp only [mulSums, natTerm, val, ints, List.map_cons, List.map_nil, value_cons, value_nil,
    width_wide, width_narrow, Bool.not_true, Bool.not_false, List.getD_cons_zero,
    List.getD_cons_succ]
  push_cast
  ring

theorem mul_sums_value (second : Bounded b) :
    value width true (productInts (mulSums term a b)) = val a * val b := by
  rw [product_ints_eq (mul_sums_exact first second), nat_sums_value first second]

theorem square_sums_value : value width true (productInts (squareSums term a)) = val a * val a := by
  rw [product_ints_eq (square_sums_exact first), square_sums_eq, nat_sums_value first first]

theorem last_sum_small (second : Bounded b) :
    (term (a.getD 8 0) (b.getD 8 0) 0).toNat < 2 ^ 60 := by
  have less := nat_term_mono (limb_le_largest first 8) (limb_le_largest second 8) 0
  rw [term_value _ _ (by decide)]
  exact Nat.lt_of_le_of_lt (Nat.le_trans (Nat.mod_le _ _) less) (by decide)

end Sums

/-- Sums, differences and products of bounded elements are bounded, and no product sum
overflows. Sums and differences are exact. A product or square is exact if and only if the
borrows of the reduction have left no negative limb. -/
theorem field_exact_iff (a b : List UInt32) (first : Bounded a) (second : Bounded b) :
    (Bounded (sm2P256Add a b) ∧ (val (sm2P256Add a b) : ZMod p) = val a + val b) ∧
      (Bounded (sm2P256Sub a b) ∧ (val (sm2P256Sub a b) : ZMod p) = val a - val b) ∧
      ((mulSums term a b).map UInt64.toNat = mulSums natTerm a b ∧
        (squareSums term a).map UInt64.toNat = squareSums natTerm a) ∧
      (∀ words ∈ [addWords a b, subWords a b, lastWords (mulSums term a b),
        lastWords (squareSums term a)], (carryChain true 0 words).2.toNat < 8) ∧
      (Bounded (sm2P256Mul a b) ∧
        ((val (sm2P256Mul a b) : ZMod p) = val a * val b * (2 ^ 257)⁻¹ ↔
          Unwrapped (lastWords (mulSums term a b)))) ∧
      (Bounded (sm2P256Square a) ∧
        ((val (sm2P256Square a) : ZMod p) = val a * val a * (2 ^ 257)⁻¹ ↔
          Unwrapped (lastWords (squareSums term a)))) := by
  have room : ((mulSums term a b).getD 16 0).toNat < 2 ^ 60 := last_sum_small first second
  have roomSquare : ((squareSums term a).getD 16 0).toNat < 2 ^ 60 := last_sum_small first first
  have product := reduce_degree_spec rfl room
  have square := reduce_degree_spec rfl roomSquare
  rw [mul_sums_value first second, Int.cast_mul] at product
  rw [square_sums_value first, Int.cast_mul] at square
  refine ⟨add_exact first second, sub_exact first second,
    ⟨mul_sums_exact first second, square_sums_exact first⟩, ?_, product, square⟩
  simp only [List.forall_mem_cons]
  exact ⟨last_carry_small (add_words_nine first second) 0,
    last_carry_small (sub_words_nine first second) 0, last_carry_small (last_words_nine rfl room) 0,
    last_carry_small (last_words_nine rfl roomSquare) 0, List.forall_mem_nil _⟩

theorem field_exact_seven :
    Bounded [7, 0, 0, 0, 0, 0, 0, 0, 0] ∧
      (val (sm2P256Mul [7, 0, 0, 0, 0, 0, 0, 0, 0] [7, 0, 0, 0, 0, 0, 0, 0, 0]) : ZMod p) =
        val [7, 0, 0, 0, 0, 0, 0, 0, 0] * val [7, 0, 0, 0, 0, 0, 0, 0, 0] * (2 ^ 257)⁻¹ := by
  have bounded : Bounded [7, 0, 0, 0, 0, 0, 0, 0, 0] :=
    ⟨rfl, by simp only [Below]; decide⟩
  refine ⟨bounded, ?_⟩
  obtain ⟨-, -, -, -, ⟨-, product⟩, -⟩ := field_exact_iff _ _ bounded bounded
  exact product.mpr (by decide +kernel)

/-- With `x = 1` on a limb that is zero, `(x >> 1) - 1` leaves a negative limb, which the
third loop takes for a large one. -/
theorem mul_not_exact :
    Bounded [1, 0, 0, 0, 0, 0, 0, 0, 0] ∧ Bounded [1, 0, 0, 0, 0, 0, 3, 0, 0] ∧
      (val (sm2P256Mul [1, 0, 0, 0, 0, 0, 0, 0, 0] [1, 0, 0, 0, 0, 0, 3, 0, 0]) : ZMod p) ≠
        val [1, 0, 0, 0, 0, 0, 0, 0, 0] * val [1, 0, 0, 0, 0, 0, 3, 0, 0] * (2 ^ 257)⁻¹ := by
  refine ⟨⟨rfl, by simp only [Below]; decide⟩, ⟨rfl, by simp only [Below]; decide⟩, ?_⟩
  have result : sm2P256Mul [1, 0, 0, 0, 0, 0, 0, 0, 0] [1, 0, 0, 0, 0, 0, 3, 0, 0] =
      [536867842, 24555, 536478144, 268433919, 486563839, 133955583, 6291457, 226492404,
        134217919] := by
    decide +kernel
  rw [result, Ne, eq_mul_inv_iff_mul_eq₀ (two_pow_ne_zero 257), pow_succ]
  intro equal
  have divides : (p : ℤ) ∣ _ :=
    (ZMod.intCast_eq_intCast_iff_dvd_sub _ _ p).mp (by exact_mod_cast equal)
  revert divides
  decide +kernel

end PbftBlock.FieldLimbs
