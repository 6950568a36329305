import PbftBlock.CurveSize
import PbftBlock.FieldLimbs

/-!
# The precomputed points of the curve

The table of `p256.go` holds two times fifteen points in affine form: the sums of
multiples of the base point with `2 ^ 0`, `2 ^ 64`, `2 ^ 128` and `2 ^ 192`, and the same
multiplied by `2 ^ 32`. An entry is taken by masks, without a look at the index.
-/

namespace PbftBlock.PrecomputedPoints

open PbftBlock.Library.JacobianPoints PbftBlock.CurveAddition PbftBlock.CurveOrder
open PbftBlock.CurveSize

set_option autoImplicit false

def sm2P256Precomputed : List UInt32 :=
  [0x830053d, 0x328990f, 0x6c04fe1, 0xc0f72e5, 0x1e19f3c, 0x666b093, 0x175a87b, 0xec38276, 0x222cf4b,
    0x185a1bba, 0x354e593, 0x1295fac1, 0xf2bc469, 0x47c60fa, 0xc19b8a9, 0xf63533e, 0x903ae6b, 0xc79acba,
    0x15b061a4, 0x33e020b, 0xdffb34b, 0xfcf2c8, 0x16582e08, 0x262f203, 0xfb34381, 0xa55452, 0x604f0ff,
    0x41f1f90, 0xd64ced2, 0xee377bf, 0x75f05f0, 0x189467ae, 0xe2244e, 0x1e7700e8, 0x3fbc464, 0x9612d2e,
    0x1341b3b8, 0xee84e23, 0x1edfa5b4, 0x14e6030, 0x19e87be9, 0x92f533c, 0x1665d96c, 0x226653e, 0xa238d3e,
    0xf5c62c, 0x95bb7a, 0x1f0e5a41, 0x28789c3, 0x1f251d23, 0x8726609, 0xe918910, 0x8096848, 0xf63d028,
    0x152296a1, 0x9f561a8, 0x14d376fb, 0x898788a, 0x61a95fb, 0xa59466d, 0x159a003d, 0x1ad1698, 0x93cca08,
    0x1b314662, 0x706e006, 0x11ce1e30, 0x97b710, 0x172fbc0d, 0x8f50158, 0x11c7ffe7, 0xd182cce, 0xc6ad9e8,
    0x12ea31b2, 0xc4e4f38, 0x175b0d96, 0xec06337, 0x75a9c12, 0xb001fdf, 0x93e82f5, 0x34607de, 0xb8035ed,
    0x17f97924, 0x75cf9e6, 0xdceaedd, 0x2529924, 0x1a10c5ff, 0xb1a54dc, 0x19464d8, 0x2d1997, 0xde6a110,
    0x1e276ee5, 0x95c510c, 0x1aca7c7a, 0xfe48aca, 0x121ad4d9, 0xe4132c6, 0x8239b9d, 0x40ea9cd, 0x816c7b,
    0x632d7a4, 0xa679813, 0x5911fcf, 0x82b0f7c, 0x57b0ad5, 0xbef65, 0xd541365, 0x7f9921f, 0xc62e7a,
    0x3f4b32d, 0x58e50e1, 0x6427aed, 0xdcdda67, 0xe8c2d3e, 0x6aa54a4, 0x18df4c35, 0x49a6a8e, 0x3cd3d0c,
    0xd7adf2, 0xcbca97, 0x1bda5f2d, 0x3258579, 0x606b1e6, 0x6fc1b5b, 0x1ac27317, 0x503ca16, 0xa677435,
    0x57bc73, 0x3992a42, 0xbab987b, 0xfab25eb, 0x128912a4, 0x90a1dc4, 0x1402d591, 0x9ffbcfc, 0xaa48856,
    0x7a7c2dc, 0xcefd08a, 0x1b29bda6, 0xa785641, 0x16462d8c, 0x76241b7, 0x79b6c3b, 0x204ae18, 0xf41212b,
    0x1f567a4d, 0xd6ce6db, 0xedf1784, 0x111df34, 0x85d7955, 0x55fc189, 0x1b7ae265, 0xf9281ac, 0xded7740,
    0xf19468b, 0x83763bb, 0x8ff7234, 0x3da7df8, 0x9590ac3, 0xdc96f2a, 0x16e44896, 0x7931009, 0x99d5acc,
    0x10f7b842, 0xaef5e84, 0xc0310d7, 0xdebac2c, 0x2a7b137, 0x4342344, 0x19633649, 0x3a10624, 0x4b4cb56,
    0x1d809c59, 0xac007f, 0x1f0f4bcd, 0xa1ab06e, 0xc5042cf, 0x82c0c77, 0x76c7563, 0x22c30f3, 0x3bf1568,
    0x7a895be, 0xfcca554, 0x12e90e4c, 0x7b4ab5f, 0x13aeb76b, 0x5887e2c, 0x1d7fe1e3, 0x908c8e3, 0x95800ee,
    0xb36bd54, 0xf08905d, 0x4e73ae8, 0xf5a7e48, 0xa67cb0, 0x50e1067, 0x1b944a0a, 0xf29c83a, 0xb23cfb9,
    0xbe1db1, 0x54de6e8, 0xd4707f2, 0x8ebcc2d, 0x2c77056, 0x1568ce4, 0x15fcc849, 0x4069712, 0xe2ed85f,
    0x2c5ff09, 0x42a6929, 0x628e7ea, 0xbd5b355, 0xaf0bd79, 0xaa03699, 0xdb99816, 0x4379cef, 0x81d57b,
    0x11237f01, 0xe2a820b, 0xfd53b95, 0x6beb5ee, 0x1aeb790c, 0xe470d53, 0x2c2cfee, 0x1c1d8d8, 0xa520fc4,
    0x1518e034, 0xa584dd4, 0x29e572b, 0xd4594fc, 0x141a8f6f, 0x8dfccf3, 0x5d20ba3, 0x2eb60c3, 0x9f16eb0,
    0x11cec356, 0xf039f84, 0x1b0990c1, 0xc91e526, 0x10b65bae, 0xf0616e8, 0x173fa3ff, 0xec8ccf9, 0xbe32790,
    0x11da3e79, 0xe2f35c7, 0x908875c, 0xdacf7bd, 0x538c165, 0x8d1487f, 0x7c31aed, 0x21af228, 0x7e1689d,
    0xdfc23ca, 0x24f15dc, 0x25ef3c4, 0x35248cd, 0x99a0f43, 0xa4b6ecc, 0xd066b3, 0x2481152, 0x37a7688,
    0x15a444b6, 0xb62300c, 0x4b841b, 0xa655e79, 0xd53226d, 0xbeb348a, 0x127f3c2, 0xb989247, 0x71a277d,
    0x19e9dfcb, 0xb8f92d0, 0xe2d226c, 0x390a8b0, 0x183cc462, 0x7bd8167, 0x1f32a552, 0x5e02db4, 0xa146ee9,
    0x1a003957, 0x1c95f61, 0x1eeec155, 0x26f811f, 0xf9596ba, 0x3082bfb, 0x96df083, 0x3e3a289, 0x7e2d8be,
    0x157a63e0, 0x99b8941, 0x1da7d345, 0xcc6cd0, 0x10beed9a, 0x48e83c0, 0x13aa2e25, 0x7cad710, 0x4029988,
    0x13dfa9dd, 0xb94f884, 0x1f4adfef, 0xb88543, 0x16f5f8dc, 0xa6a67f4, 0x14e274e2, 0x5e56cf4, 0x2f24ef,
    0x1e9ef967, 0xfe09bad, 0xfe079b3, 0xcc0ae9e, 0xb3edf6d, 0x3e961bc, 0x130d7831, 0x31043d6, 0xba986f9,
    0x1d28055, 0x65240ca, 0x4971fa3, 0x81b17f8, 0x11ec34a5, 0x8366ddc, 0x1471809, 0xfa5f1c6, 0xc911e15,
    0x8849491, 0xcf4c2e2, 0x14471b91, 0x39f75be, 0x445c21e, 0xf1585e9, 0x72cc11f, 0x4c79f0c, 0xe5522e1,
    0x1874c1ee, 0x4444211, 0x7914884, 0x3d1b133, 0x25ba3c, 0x4194f65, 0x1c0457ef, 0xac4899d, 0xe1fa66c,
    0x130a7918, 0x9b8d312, 0x4b1c5c8, 0x61ccac3, 0x18c8aa6f, 0xe93cb0a, 0xdccb12c, 0xde10825, 0x969737d,
    0xf58c0c3, 0x7cee6a9, 0xc2c329a, 0xc7f9ed9, 0x107b3981, 0x696a40e, 0x152847ff, 0x4d88754, 0xb141f47,
    0x5a16ffe, 0x3a7870a, 0x18667659, 0x3b72b03, 0xb1c9435, 0x9285394, 0xa00005a, 0x37506c, 0x2edc0bb,
    0x19afe392, 0xeb39cac, 0x177ef286, 0xdf87197, 0x19f844ed, 0x31fe8, 0x15f9bfd, 0x80dbec, 0x342e96e,
    0x497aced, 0xe88e909, 0x1f5fa9ba, 0x530a6ee, 0x1ef4e3f1, 0x69ffd12, 0x583006d, 0x2ecc9b1, 0x362db70,
    0x18c7bdc5, 0xf4bb3c5, 0x1c90b957, 0xf067c09, 0x9768f2b, 0xf73566a, 0x1939a900, 0x198c38a, 0x202a2a1,
    0x4bbf5a6, 0x4e265bc, 0x1f44b6e7, 0x185ca49, 0xa39e81b, 0x24aff5b, 0x4acc9c2, 0x638bdd3, 0xb65b2a8,
    0x6def8be, 0xb94537a, 0x10b81dee, 0xe00ec55, 0x2f2cdf7, 0xc20622d, 0x2d20f36, 0xe03c8c9, 0x898ea76,
    0x8e3921b, 0x8905bff, 0x1e94b6c8, 0xee7ad86, 0x154797f2, 0xa620863, 0x3fbd0d9, 0x1f3caab, 0x30c24bd,
    0x19d3892f, 0x59c17a2, 0x1ab4b0ae, 0xf8714ee, 0x90c4098, 0xa9c800d, 0x1910236b, 0xea808d3, 0x9ae2f31,
    0x1a15ad64, 0xa48c8d1, 0x184635a4, 0xb725ef1, 0x11921dcc, 0x3f866df, 0x16c27568, 0xbdf580a, 0xb08f55c,
    0x186ee1c, 0xb1627fa, 0x34e82f6, 0x933837e, 0xf311be5, 0xfedb03b, 0x167f72cd, 0xa5469c0, 0x9c82531,
    0xb92a24b, 0x14fdc8b, 0x141980d1, 0xbdc3a49, 0x7e02bb1, 0xaf4e6dd, 0x106d99e1, 0xd4616fc, 0x93c2717,
    0x1c0a0507, 0xc6d5fed, 0x9a03d8b, 0xa1d22b0, 0x127853e3, 0xc4ac6b8, 0x1a048cf7, 0x9afb72c, 0x65d485d,
    0x72d5998, 0xe9fa744, 0xe49e82c, 0x253cf80, 0x5f777ce, 0xa3799a5, 0x17270cbb, 0xc1d1ef0, 0xdf74977,
    0x114cb859, 0xfa8e037, 0xb8f3fe5, 0xc734cc6, 0x70d3d61, 0xeadac62, 0x12093dd0, 0x9add67d, 0x87200d6,
    0x175bcbb, 0xb29b49f, 0x1806b79c, 0x12fb61f, 0x170b3a10, 0x3aaf1cf, 0xa224085, 0x79d26af, 0x97759e2,
    0x92e19f1, 0xb32714d, 0x1f00d9f1, 0xc728619, 0x9e6f627, 0xe745e24, 0x18ea4ace, 0xfc60a41, 0x125f5b2,
    0xc3cf512, 0x39ed486, 0xf4d15fa, 0xf9167fd, 0x1c1f5dd5, 0xc21a53e, 0x1897930, 0x957a112, 0x21059a0,
    0x1f9e3ddc, 0xa4dfced, 0x8427f6f, 0x726fbe7, 0x1ea658f8, 0x2fdcd4c, 0x17e9b66f, 0xb2e7c2e, 0x39923bf,
    0x1bae104, 0x3973ce5, 0xc6f264c, 0x3511b84, 0x124195d7, 0x11996bd, 0x20be23d, 0xdc437c4, 0x4b4f16b,
    0x11902a0, 0x6c29cc9, 0x1d5ffbe6, 0xdb0b4c7, 0x10144c14, 0x2f2b719, 0x301189, 0x2343336, 0xa0bf2ac]

def element (limbs : List UInt32) : FieldElement := (toBig (limbs.map UInt32.toNat) : ℕ)

/-- The mask of entry `i` of a table: all ones for the entry that is looked for. -/
def selectMask (i index : UInt32) : UInt32 :=
  let mask := i ^^^ index
  let mask := mask ||| (mask >>> 2)
  let mask := mask ||| (mask >>> 1)
  (mask &&& 1) - 1

/-- The loop over the entries from number `i` on, for one coordinate. -/
def selectFrom (index : UInt32) : (i : ℕ) → (out : List UInt32) → List (List UInt32) → List UInt32
  | _, out, [] => out
  | i, out, entry :: entries =>
      let mask := selectMask (UInt32.ofNat i) index
      selectFrom index (i + 1) (List.zipWith (fun o word => o ||| (word &&& mask)) out entry) entries

def zeroLimbs : List UInt32 := List.replicate 9 0

def column (table : List UInt32) (offset : ℕ) : List (List UInt32) :=
  (List.range 15).map fun k => (table.drop (18 * k + offset)).take 9

def sm2P256SelectAffinePoint (table : List UInt32) (index : UInt32) :
    List UInt32 × List UInt32 :=
  (selectFrom index 1 zeroLimbs (column table 0), selectFrom index 1 zeroLimbs (column table 9))

def sm2P256CopyConditional (out input : List UInt32) (mask : UInt32) : List UInt32 :=
  List.zipWith (fun o word => o ^^^ (mask &&& (word ^^^ o))) out input

/-! ## Selection by masks -/

section Masks

def ones : UInt32 := 0xFFFFFFFF

theorem select_mask_eq : ∀ i < 16, ∀ index < 16,
    selectMask (UInt32.ofNat i) (UInt32.ofNat index) = if i = index then ones else 0 := by
  decide

theorem zip_masked_out {out entry : List UInt32} (same : out.length = entry.length) :
    List.zipWith (fun o word => o ||| (word &&& 0)) out entry = out := by
  induction out generalizing entry with
  | nil => rfl
  | cons o out induction =>
      cases entry with
      | nil => cases same
      | cons word entry =>
          rw [List.zipWith_cons_cons, induction (Nat.succ.inj same), UInt32.and_zero, UInt32.or_zero]

theorem zip_masked_in (entry : List UInt32) :
    List.zipWith (fun o word => o ||| (word &&& ones)) (List.replicate entry.length 0) entry =
      entry := by
  induction entry with
  | nil => rfl
  | cons word entry induction =>
      have kept : word &&& ones = word := UInt32.and_neg_one
      rw [List.length_cons, List.replicate_succ, List.zipWith_cons_cons, induction, kept,
        UInt32.zero_or]

variable {index : ℕ} {entries : List (List UInt32)}

/-- Behind the entry that is looked for nothing changes. -/
theorem select_from_past {i : ℕ} {out : List UInt32} (past : index < i)
    (few : i + entries.length ≤ 16) (nine : ∀ entry ∈ entries, entry.length = out.length) :
    selectFrom (UInt32.ofNat index) i out entries = out := by
  induction entries generalizing i with
  | nil => rfl
  | cons entry entries induction =>
      rw [List.length_cons] at few
      rw [selectFrom, select_mask_eq i (by omega) index (by omega), if_neg (by omega),
        zip_masked_out (nine entry List.mem_cons_self).symm]
      exact induction (by omega) (by omega) fun entry member =>
        nine entry (List.mem_cons_of_mem _ member)

theorem select_from_eq {i : ℕ} (ahead : i ≤ index) (listed : index < i + entries.length)
    (few : i + entries.length ≤ 16) (nine : ∀ entry ∈ entries, entry.length = 9) :
    selectFrom (UInt32.ofNat index) i zeroLimbs entries = entries.getD (index - i) [] := by
  induction entries generalizing i with
  | nil =>
      rw [List.length_nil] at listed
      omega
  | cons entry entries induction =>
      have length := nine entry List.mem_cons_self
      have others : ∀ entry ∈ entries, entry.length = 9 := fun entry member =>
        nine entry (List.mem_cons_of_mem _ member)
      rw [List.length_cons] at listed few
      rw [selectFrom, select_mask_eq i (by omega) index (by omega)]
      by_cases here : i = index
      · subst here
        have taken := zip_masked_in entry
        rw [length] at taken
        rw [if_pos rfl, zeroLimbs, taken, Nat.sub_self, List.getD_cons_zero]
        apply select_from_past (by omega) (by omega)
        intro other member
        rw [others other member, length]
      · have step : index - i = index - (i + 1) + 1 := by omega
        rw [if_neg here, zip_masked_out (by rw [length]; rfl), step, List.getD_cons_succ]
        exact induction (by omega) (by omega) (by omega) others

theorem select_from_zero (few : entries.length ≤ 15) (nine : ∀ entry ∈ entries, entry.length = 9) :
    selectFrom 0 1 zeroLimbs entries = zeroLimbs := by
  have zero : (0 : UInt32) = UInt32.ofNat 0 := rfl
  rw [zero]
  exact select_from_past (by decide) (by omega) nine

/-- The masks of the loops copy all limbs or none. -/
theorem copy_conditional_eq {out input : List UInt32} (same : out.length = input.length) :
    sm2P256CopyConditional out input ones = input ∧ sm2P256CopyConditional out input 0 = out := by
  unfold sm2P256CopyConditional
  induction out generalizing input with
  | nil =>
      obtain rfl := List.eq_nil_of_length_eq_zero same.symm
      exact ⟨rfl, rfl⟩
  | cons o out induction =>
      cases input with
      | nil => cases same
      | cons word input =>
          obtain ⟨copied, kept⟩ := induction (Nat.succ.inj same)
          have taken : o ^^^ (ones &&& (word ^^^ o)) = word := by
            have all : ones &&& (word ^^^ o) = word ^^^ o := UInt32.neg_one_and
            rw [all, UInt32.xor_comm word, ← UInt32.xor_assoc, UInt32.xor_self, UInt32.zero_xor]
          have left : o ^^^ (0 &&& (word ^^^ o)) = o := by
            rw [UInt32.zero_and, UInt32.xor_zero]
          rw [List.zipWith_cons_cons, List.zipWith_cons_cons, copied, kept, taken, left]
          exact ⟨rfl, rfl⟩

end Masks

/-! ## The points of the table -/

/-- The words from the first table on, or from the second. -/
def tableFrom (second : Bool) : List UInt32 :=
  if second then sm2P256Precomputed.drop 270 else sm2P256Precomputed

def entry (second : Bool) (index : ℕ) : Jacobian FieldElement :=
  ⟨element ((column (tableFrom second) 0).getD (index - 1) []),
    element ((column (tableFrom second) 9).getD (index - 1) []), 1⟩

def agrees (triple entry : Jacobian FieldElement) : Bool :=
  triple.z ≠ 0 ∧ triple.x = entry.x * triple.z ^ 2 ∧ triple.y = entry.y * triple.z ^ 3 ∧ entry.z = 1

theorem agrees_holds {triple entry : Jacobian FieldElement} {P : CurvePoint}
    (agreed : agrees triple entry = true) (holds : Holds triple P) : Holds entry P := by
  rw [agrees, decide_eq_true_eq] at agreed
  obtain ⟨nonzero, atX, atY, one⟩ := agreed
  cases holds with
  | infinity zero => exact absurd zero nonzero
  | affine on _ pointX pointY =>
      have sameX := mul_right_cancel₀ (pow_ne_zero 2 nonzero) (pointX.symm.trans atX)
      have sameY := mul_right_cancel₀ (pow_ne_zero 3 nonzero) (pointY.symm.trans atY)
      apply Represents.affine on
      · rw [one]
        exact one_ne_zero
      · rw [one, sameX]
        ring
      · rw [one, sameY]
        ring

theorem doubles_hold {triple : Jacobian FieldElement} {P : CurvePoint} (holds : Holds triple P)
    (k : ℕ) : Holds (pointDouble^[k] triple) (2 ^ k • P) := by
  induction k with
  | zero =>
      rw [Function.iterate_zero_apply, pow_zero, one_nsmul]
      exact holds
  | succ k induction =>
      have twice := point_double_holds induction
      rw [Function.iterate_succ_apply', pow_succ, mul_nsmul', two_nsmul, nsmul_add]
      exact twice

/-- The multiple of the base point that an entry of the first table is. -/
def spread (index : ℕ) : ℕ :=
  index % 2 + 2 ^ 64 * (index / 2 % 2) + 2 ^ 128 * (index / 4 % 2) + 2 ^ 192 * (index / 8 % 2)

def multiple (second : Bool) (index : ℕ) : ℕ := (if second then 2 ^ 32 else 1) * spread index

/-- The entries with one bit, each with the one that it is `2 ^ 32` times. -/
def shifts : List ((Bool × ℕ) × (Bool × ℕ)) :=
  [((false, 1), (true, 1)), ((true, 1), (false, 2)), ((false, 2), (true, 2)),
    ((true, 2), (false, 4)), ((false, 4), (true, 4)), ((true, 4), (false, 8)),
    ((false, 8), (true, 8))]

theorem shifts_agree : shifts.all (fun pair =>
    agrees (pointDouble^[32] (entry pair.1.1 pair.1.2)) (entry pair.2.1 pair.2.2)) = true := by
  decide +kernel

/-- The other entries are sums of two before them. -/
def sums : List (ℕ × ℕ) :=
  [(2, 1), (4, 1), (4, 2), (4, 3), (8, 1), (8, 2), (8, 3), (8, 4), (8, 5), (8, 6), (8, 7)]

theorem sums_agree : sums.all (fun pair => [false, true].all fun second =>
    agrees (pointAdd (entry second pair.1) (entry second pair.2)).sum
      (entry second (pair.1 + pair.2))) = true := by
  decide +kernel

theorem entry_one : entry false 1 = ⟨gx, gy, 1⟩ := by
  decide +kernel

structure Listed (second : Bool) (index : ℕ) : Prop where
  holds : Holds (entry second index) (multiple second index • basePoint)

theorem listed_shift {second second' : Bool} {j k : ℕ}
    (pair : ((second, j), (second', k)) ∈ shifts)
    (shifted : multiple second' k = 2 ^ 32 * multiple second j) (listed : Listed second j) :
    Listed second' k := by
  have agreed := List.all_eq_true.mp shifts_agree _ pair
  have holds := agrees_holds agreed (doubles_hold listed.holds 32)
  rw [← mul_nsmul', ← shifted] at holds
  exact ⟨holds⟩

theorem listed_sum {j k : ℕ} (pair : (j, k) ∈ sums) {second : Bool}
    (added : multiple second (j + k) = multiple second j + multiple second k)
    (first : Listed second j) (other : Listed second k) : Listed second (j + k) := by
  have both := List.all_eq_true.mp sums_agree _ pair
  have agreed := List.all_eq_true.mp both second (by cases second <;> decide)
  -- a point and itself would have come out as infinity
  have apart : multiple second j • basePoint = multiple second k • basePoint →
      multiple second j • basePoint = 0 := by
    intro same
    by_contra finite
    have nonzero := (of_decide_eq_true agreed).1
    exact nonzero (point_add_self first.holds (by rw [same]; exact other.holds) finite).2
  constructor
  rw [added, add_nsmul]
  exact agrees_holds agreed (point_add_sum first.holds other.holds apart).2.2

theorem listed_single (second : Bool) :
    Listed second 1 ∧ Listed second 2 ∧ Listed second 4 ∧ Listed second 8 := by
  have first1 : Listed false 1 := by
    have one : multiple false 1 = 1 := by decide
    constructor
    rw [entry_one, one, one_nsmul]
    apply Represents.affine base_on_curve one_ne_zero
    · simp
    · simp
  have second1 : Listed true 1 := listed_shift (by decide) (by decide) first1
  have first2 : Listed false 2 := listed_shift (by decide) (by decide) second1
  have second2 : Listed true 2 := listed_shift (by decide) (by decide) first2
  have first4 : Listed false 4 := listed_shift (by decide) (by decide) second2
  have second4 : Listed true 4 := listed_shift (by decide) (by decide) first4
  have first8 : Listed false 8 := listed_shift (by decide) (by decide) second4
  have second8 : Listed true 8 := listed_shift (by decide) (by decide) first8
  cases second with
  | false => exact ⟨first1, first2, first4, first8⟩
  | true => exact ⟨second1, second2, second4, second8⟩

theorem multiple_add (second : Bool) {j k : ℕ} (added : spread (j + k) = spread j + spread k) :
    multiple second (j + k) = multiple second j + multiple second k := by
  rw [multiple, multiple, multiple, added, Nat.mul_add]

theorem precomputed_listed (second : Bool) {index : ℕ} (positive : 1 ≤ index) (small : index < 16) :
    Listed second index := by
  obtain ⟨h1, h2, h4, h8⟩ := listed_single second
  have sum {j k : ℕ} (pair : (j, k) ∈ sums) (added : spread (j + k) = spread j + spread k)
      (first : Listed second j) (other : Listed second k) : Listed second (j + k) :=
    listed_sum pair (multiple_add second added) first other
  have h3 : Listed second 3 := sum (by decide : (2, 1) ∈ sums) (by decide) h2 h1
  have h5 : Listed second 5 := sum (by decide : (4, 1) ∈ sums) (by decide) h4 h1
  have h6 : Listed second 6 := sum (by decide : (4, 2) ∈ sums) (by decide) h4 h2
  have h7 : Listed second 7 := sum (by decide : (4, 3) ∈ sums) (by decide) h4 h3
  interval_cases index
  · exact h1
  · exact h2
  · exact h3
  · exact h4
  · exact h5
  · exact h6
  · exact h7
  · exact h8
  · exact sum (by decide : (8, 1) ∈ sums) (by decide) h8 h1
  · exact sum (by decide : (8, 2) ∈ sums) (by decide) h8 h2
  · exact sum (by decide : (8, 3) ∈ sums) (by decide) h8 h3
  · exact sum (by decide : (8, 4) ∈ sums) (by decide) h8 h4
  · exact sum (by decide : (8, 5) ∈ sums) (by decide) h8 h5
  · exact sum (by decide : (8, 6) ∈ sums) (by decide) h8 h6
  · exact sum (by decide : (8, 7) ∈ sums) (by decide) h8 h7

theorem column_length (table : List UInt32) (offset : ℕ) : (column table offset).length = 15 := by
  rw [column, List.length_map, List.length_range]

theorem column_nine : ∀ second : Bool, ∀ offset ∈ [0, 9],
    ∀ words ∈ column (tableFrom second) offset, words.length = 9 := by
  decide +kernel

theorem select_affine_entry (second : Bool) {index : ℕ} (positive : 1 ≤ index)
    (small : index < 16) :
    (⟨element (sm2P256SelectAffinePoint (tableFrom second) (UInt32.ofNat index)).1,
      element (sm2P256SelectAffinePoint (tableFrom second) (UInt32.ofNat index)).2, 1⟩ :
        Jacobian FieldElement) = entry second index := by
  have selected (offset : ℕ) (coordinate : offset ∈ [0, 9]) :
      selectFrom (UInt32.ofNat index) 1 zeroLimbs (column (tableFrom second) offset) =
        (column (tableFrom second) offset).getD (index - 1) [] :=
    select_from_eq positive (by rw [column_length]; omega) (by rw [column_length])
      (column_nine second offset coordinate)
  rw [sm2P256SelectAffinePoint, selected 0 (by decide), selected 9 (by decide), entry]

theorem select_affine_zero (second : Bool) :
    element (sm2P256SelectAffinePoint (tableFrom second) 0).1 = 0 ∧
      element (sm2P256SelectAffinePoint (tableFrom second) 0).2 = 0 := by
  have selected (offset : ℕ) (coordinate : offset ∈ [0, 9]) :
      selectFrom 0 1 zeroLimbs (column (tableFrom second) offset) = zeroLimbs :=
    select_from_zero (by rw [column_length]) (column_nine second offset coordinate)
  have zero : element zeroLimbs = 0 := by decide
  rw [sm2P256SelectAffinePoint, selected 0 (by decide), selected 9 (by decide)]
  exact ⟨zero, zero⟩

end PbftBlock.PrecomputedPoints
