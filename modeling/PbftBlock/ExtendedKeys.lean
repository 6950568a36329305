import PbftBlock.CompressedPoints

/-!
# Extended keys

The derivation of keys in `sm2/chainkd`. A key carries 32 bytes of chain code, and a child is
made of both with HMAC-SHA512, which is a parameter here. A derived number is copied to the
front of the child without the zero bytes that it would need to fill 32: below `2 ^ 248`
bytes of the hash stay behind it, or the slice of 32 bytes panics.
-/

namespace PbftBlock.ExtendedKeys

open PbftBlock.Library.BigEndian PbftBlock.NodeKeys PbftBlock.CompressedPoints
open PbftBlock.CurveOrder
open PbftBlock.CurveAddition (CurvePoint affine basePoint)
open PbftBlock.Sm2 (Curve Point CryptoError)

set_option autoImplicit false

abbrev XPrv := Bytes 64

abbrev XPub := Bytes 65

/-- `copy` into a slice, which keeps what it does not reach. -/
def overwrite (dst src : List UInt8) : List UInt8 := src.take dst.length ++ dst.drop src.length

theorem overwrite_length (dst src : List UInt8) : (overwrite dst src).length = dst.length := by
  rw [overwrite, List.length_append, List.length_take, List.length_drop]
  omega

def copyFront (res : Bytes 64) (priv : List UInt8) : XPrv :=
  ⟨overwrite (res.1.take 32) priv ++ res.1.drop 32, by
    rw [List.length_append, overwrite_length, ← List.length_append, List.take_append_drop, res.2]⟩

/-- A compressed point and the chain code of 64 bytes, copied into a public key. -/
def xpubOf (compPubkey : List UInt8) (code : Bytes 64) : XPub :=
  ⟨(copyBytes 33 compPubkey).1 ++ code.1.drop 32, by
    rw [List.length_append, (copyBytes 33 _).2, List.length_drop, code.2]⟩

def XPrv.k (xprv : XPrv) : ℕ := ofBytes (xprv.1.take 32)

section Derivation

variable (hmac : List UInt8 → List UInt8 → Bytes 64) (curve : Curve)

def XPrv.xpub (xprv : XPrv) : XPub := xpubOf (compress (curve.scalarBaseMult xprv.k)) xprv

def XPub.mac (xpub : XPub) (sel : List UInt8) : Bytes 64 :=
  hmac (xpub.1.drop 33) (0x4E :: (xpub.1.take 33 ++ sel))

def XPub.child (xpub : XPub) (sel : List UInt8) : Except CryptoError XPub := do
  let res := xpub.mac hmac sel
  let k := ofBytes (res.1.take 32)
  let parPubkey ← decompress (xpub.1.take 33)
  return xpubOf (compress (curve.add (curve.scalarBaseMult k) parPubkey)) res

def XPrv.mac (xprv : XPrv) (sel : List UInt8) (hardened : Bool) : Bytes 64 :=
  if hardened then hmac (xprv.1.drop 32) (0x48 :: (xprv.1.take 32 ++ sel))
  else (xprv.xpub curve).mac hmac sel

def XPrv.r (xprv : XPrv) (sel : List UInt8) (hardened : Bool) : ℕ :=
  (ofBytes ((xprv.mac hmac curve sel hardened).1.take 32) + xprv.k) % curve.n

def XPrv.hardenedChild (xprv : XPrv) (sel : List UInt8) : Except CryptoError XPrv :=
  let priv := minimal (xprv.r hmac curve sel true)
  -- the capacity of the bytes is their number
  if priv.length < 32 then .error .panicked
  else .ok (copyFront (xprv.mac hmac curve sel true) (priv.take 32))

def XPrv.nonhardenedChild (xprv : XPrv) (sel : List UInt8) : XPrv :=
  copyFront (xprv.mac hmac curve sel false) (minimal (xprv.r hmac curve sel false))

def XPrv.child (xprv : XPrv) (sel : List UInt8) (hardened : Bool) : Except CryptoError XPrv :=
  if hardened then xprv.hardenedChild hmac curve sel else .ok (xprv.nonhardenedChild hmac curve sel)

def XPrv.derive (xprv : XPrv) (path : List (List UInt8)) : Except CryptoError XPrv :=
  path.foldlM (fun res sel => XPrv.child hmac curve res sel false) xprv

def XPub.derive (xpub : XPub) (path : List (List UInt8)) : Except CryptoError XPub :=
  path.foldlM (fun res sel => XPub.child hmac curve res sel) xpub

end Derivation

/-! ## One child -/

theorem front_length (res : Bytes 64) : (res.1.take 32).length = 32 := by
  rw [List.length_take, res.2]
  rfl

theorem copy_front_take (res : Bytes 64) (priv : List UInt8) :
    (copyFront res priv).1.take 32 = overwrite (res.1.take 32) priv := by
  have length : (overwrite (res.1.take 32) priv).length = 32 := by
    rw [overwrite_length, front_length]
  change (overwrite (res.1.take 32) priv ++ res.1.drop 32).take 32 = _
  rw [List.take_append_of_le_length (by omega), List.take_of_length_le (by omega)]

theorem copy_front_drop (res : Bytes 64) (priv : List UInt8) :
    (copyFront res priv).1.drop 32 = res.1.drop 32 := by
  have length : (overwrite (res.1.take 32) priv).length = 32 := by
    rw [overwrite_length, front_length]
  exact List.drop_left' length

theorem overwrite_full {dst src : List UInt8} (same : src.length = dst.length) :
    overwrite dst src = src := by
  rw [overwrite, ← same, List.take_length, same, List.drop_length, List.append_nil]

theorem minimal_full {number : ℕ} (large : 256 ^ 31 ≤ number) (small : number < 256 ^ 32) :
    minimal number = toBytes 32 number := by
  obtain ⟨short, padded⟩ := pad_minimal small
  have long : ¬(minimal number).length ≤ 31 := by
    rw [minimal_length_le_iff]
    exact Nat.not_lt.mpr large
  have none : 32 - (minimal number).length = 0 := by omega
  rw [none] at padded
  exact padded

/-- Behind a shorter number the front does not have its value: the first byte is not zero. -/
theorem overwrite_short {number : ℕ} (nonzero : number ≠ 0) (less : number < 256 ^ 31)
    {dst : List UInt8} (length : dst.length = 32) :
    overwrite dst (minimal number) ≠ toBytes 32 number := by
  obtain ⟨first, more, bytes, leading⟩ := minimal_leading nonzero
  intro same
  have heads := congrArg (fun list => list.head?) same
  rw [overwrite, bytes, length, toBytes, List.take_succ_cons, List.cons_append, List.head?_cons,
    List.head?_cons, Nat.div_eq_of_lt less] at heads
  exact leading (Option.some.inj heads)

section Children

variable (hmac : List UInt8 → List UInt8 → Bytes 64) (curve : Curve)

/-- `Child` returns, and the first 32 bytes of the child are the big-endian form of the
derived number. -/
def ExactChild (xprv : XPrv) (sel : List UInt8) (hardened : Bool) : Prop :=
  ∃ key : XPrv, xprv.child hmac curve sel hardened = .ok key ∧
    key.1.take 32 = toBytes 32 (xprv.r hmac curve sel hardened)

variable {curve}

theorem derived_small (order : curve.n = n) (xprv : XPrv) (sel : List UInt8) (hardened : Bool) :
    xprv.r hmac curve sel hardened < n := by
  rw [XPrv.r, order]
  exact Nat.mod_lt _ prime_n.pos

theorem child_full (order : curve.n = n) {xprv : XPrv} {sel : List UInt8} {hardened : Bool}
    (large : 256 ^ 31 ≤ xprv.r hmac curve sel hardened) :
    xprv.child hmac curve sel hardened =
      .ok (copyFront (xprv.mac hmac curve sel hardened)
        (toBytes 32 (xprv.r hmac curve sel hardened))) := by
  have small := Nat.lt_trans (derived_small hmac order xprv sel hardened)
    (by decide : n < 256 ^ 32)
  have bytes := minimal_full large small
  cases hardened with
  | false => rw [XPrv.child, if_neg Bool.false_ne_true, XPrv.nonhardenedChild, bytes]
  | true =>
      have length := to_bytes_length 32 (xprv.r hmac curve sel true)
      rw [XPrv.child, if_pos rfl, XPrv.hardenedChild, bytes, if_neg (by omega), List.take_of_length_le (by omega)]

theorem child_full_front (res : Bytes 64) (number : ℕ) :
    (copyFront res (toBytes 32 number)).1.take 32 = toBytes 32 number := by
  rw [copy_front_take, overwrite_full]
  rw [to_bytes_length, front_length]

theorem exact_child_iff (order : curve.n = n) {xprv : XPrv} {sel : List UInt8} {hardened : Bool}
    (nonzero : xprv.r hmac curve sel hardened ≠ 0) :
    ExactChild hmac curve xprv sel hardened ↔ 256 ^ 31 ≤ xprv.r hmac curve sel hardened := by
  constructor
  · rintro ⟨key, returned, exact⟩
    by_contra small
    have less := Nat.not_le.mp small
    have short := (minimal_length_le_iff 31 (xprv.r hmac curve sel hardened)).mpr less
    cases hardened with
    | false =>
        rw [XPrv.child, if_neg Bool.false_ne_true] at returned
        rw [← Except.ok.inj returned, XPrv.nonhardenedChild, copy_front_take] at exact
        exact overwrite_short nonzero less (front_length _) exact
    | true =>
        rw [XPrv.child, if_pos rfl, XPrv.hardenedChild, if_pos (by omega)] at returned
        cases returned
  · intro large
    exact ⟨_, child_full hmac order large, child_full_front _ _⟩

end Children

/-! ## A path -/

section Paths

variable (hmac : List UInt8 → List UInt8 → Bytes 64) (curve : Curve)

abbrev Step := List UInt8 × Bool

/-- The keys that a path goes through, each with the step to its child. A panic ends it. -/
def visited : XPrv → List Step → List (XPrv × Step)
  | _, [] => []
  | xprv, step :: path =>
      (xprv, step) ::
        match xprv.child hmac curve step.1 step.2 with
        | .ok key => visited key path
        | .error _ => []

/-- Every child on the path is exact. If none of them is hardened, the public key of the last
one is derived from the first public key with the same selectors. -/
structure DerivationCommutes (xprv : XPrv) (path : List Step) : Prop where
  exact : ∀ visit ∈ visited hmac curve xprv path,
    ExactChild hmac curve visit.1 visit.2.1 visit.2.2
  commutes : (∀ step ∈ path, step.2 = false) → ∃ key : XPrv,
    xprv.derive hmac curve (path.map Prod.fst) = .ok key ∧
      (xprv.xpub curve).derive hmac curve (path.map Prod.fst) = .ok (key.xpub curve)

variable {curve}

theorem xpub_of_front (P : CurvePoint) (code : Bytes 64) :
    (xpubOf (compress (affine P)) code).1.take 33 = compress (affine P) := by
  have length := compress_length P
  have whole : (copyBytes 33 (compress (affine P))).1 = compress (affine P) :=
    congrArg Subtype.val (copy_bytes_whole ⟨_, length⟩)
  change ((copyBytes 33 (compress (affine P))).1 ++ code.1.drop 32).take 33 = _
  rw [whole, List.take_left' length]

section Public

variable (multiplies : Multiplies curve)

include multiplies

theorem xpub_front (xprv : XPrv) :
    (xprv.xpub curve).1.take 33 = compress (curve.scalarBaseMult xprv.k) := by
  rw [XPrv.xpub, multiplies.base, xpub_of_front]

/-- A number that is no multiple of the order has a public key that `Decompress` gives back. -/
theorem recovered {k : ℕ} (finite : ¬n ∣ k) :
    decompress (compress (curve.scalarBaseMult k)) = .ok (curve.scalarBaseMult k) := by
  rw [multiplies.base]
  exact decompress_compress (mt (smul_base_eq_zero_iff k).mp finite)

end Public

/-- The child of a public key has the point of the derived number, whatever its size. -/
theorem xpub_child (implements : Implements curve) {xprv : XPrv} (sel : List UInt8)
    (recovers : decompress (compress (curve.scalarBaseMult xprv.k)) =
      .ok (curve.scalarBaseMult xprv.k)) :
    (xprv.xpub curve).child hmac curve sel =
      .ok (xpubOf (compress (curve.scalarBaseMult (xprv.r hmac curve sel false)))
        (xprv.mac hmac curve sel false)) := by
  have point :
      curve.add (curve.scalarBaseMult (ofBytes ((xprv.mac hmac curve sel false).1.take 32)))
        (curve.scalarBaseMult xprv.k) = curve.scalarBaseMult (xprv.r hmac curve sel false) := by
    rw [implements.base, implements.base, implements.base, implements.sum, XPrv.r, implements.order,
      smul_base_mod, add_nsmul]
  rw [XPub.child, xpub_front implements.toMultiplies, recovers, ← point]
  rfl

theorem child_parts (order : curve.n = n) {xprv : XPrv} {sel : List UInt8}
    (large : 256 ^ 31 ≤ xprv.r hmac curve sel false) :
    (xprv.nonhardenedChild hmac curve sel).k = xprv.r hmac curve sel false ∧
      (xprv.nonhardenedChild hmac curve sel).xpub curve =
        xpubOf (compress (curve.scalarBaseMult (xprv.r hmac curve sel false)))
          (xprv.mac hmac curve sel false) := by
  have small := Nat.lt_trans (derived_small hmac order xprv sel false) (by decide : n < 256 ^ 32)
  have child : xprv.nonhardenedChild hmac curve sel =
      copyFront (xprv.mac hmac curve sel false) (toBytes 32 (xprv.r hmac curve sel false)) :=
    Except.ok.inj (child_full hmac order large)
  have number : (xprv.nonhardenedChild hmac curve sel).k = xprv.r hmac curve sel false := by
    rw [child, XPrv.k, child_full_front, of_bytes_to_bytes small]
  refine ⟨number, ?_⟩
  rw [XPrv.xpub, number, child]
  apply Subtype.ext
  change (copyBytes 33 _).1 ++ (copyFront _ _).1.drop 32 =
    (copyBytes 33 _).1 ++ (xprv.mac hmac curve sel false).1.drop 32
  rw [copy_front_drop]

theorem visited_one (xprv : XPrv) (step : Step) :
    visited hmac curve xprv [step] = [(xprv, step)] := by
  rw [visited]
  split <;> rfl

theorem derive_cons (xprv : XPrv) (sel : List UInt8) (path : List (List UInt8)) :
    xprv.derive hmac curve (sel :: path) =
      (xprv.nonhardenedChild hmac curve sel).derive hmac curve path := by
  rw [XPrv.derive, List.foldlM_cons]
  rfl

/-- Along a path of derived numbers with 32 bytes both ways lead to the same public key. -/
theorem derive_commutes (implements : Implements curve) {path : List Step} {xprv : XPrv}
    (plain : ∀ step ∈ path, step.2 = false)
    (recovers : decompress (compress (curve.scalarBaseMult xprv.k)) =
      .ok (curve.scalarBaseMult xprv.k))
    (large : ∀ visit ∈ visited hmac curve xprv path,
      256 ^ 31 ≤ XPrv.r hmac curve visit.1 visit.2.1 visit.2.2) :
    ∃ key : XPrv, xprv.derive hmac curve (path.map Prod.fst) = .ok key ∧
      (xprv.xpub curve).derive hmac curve (path.map Prod.fst) = .ok (key.xpub curve) := by
  induction path generalizing xprv with
  | nil => exact ⟨xprv, rfl, rfl⟩
  | cons step path induction =>
      obtain ⟨sel, hardened⟩ := step
      rw [List.forall_mem_cons] at plain
      obtain rfl : hardened = false := plain.1
      have next : visited hmac curve xprv ((sel, false) :: path) = (xprv, sel, false) ::
          visited hmac curve (xprv.nonhardenedChild hmac curve sel) path := rfl
      rw [next, List.forall_mem_cons] at large
      obtain ⟨number, child⟩ := child_parts hmac implements.order large.1
      -- the next number is not zero and below the order
      have finite : ¬n ∣ (xprv.nonhardenedChild hmac curve sel).k := by
        have small := derived_small hmac implements.order xprv sel false
        rw [number]
        exact Nat.not_dvd_of_pos_of_lt (Nat.lt_of_lt_of_le (by decide) large.1) small
      obtain ⟨key, secret, shared⟩ :=
        induction plain.2 (recovered implements.toMultiplies finite) large.2
      refine ⟨key, ?_, ?_⟩
      · rw [List.map_cons, derive_cons, secret]
      · rw [List.map_cons, XPub.derive, List.foldlM_cons, xpub_child hmac implements sel recovers,
          ← child]
        exact shared

variable (curve)

/-- Private and public derivation agree and every child on the path is exact, if and only if
every number derived on it has 32 bytes. -/
theorem derivation_commutes_iff (implements : Implements curve) (xprv : XPrv) (path : List Step)
    (recovers : decompress (compress (curve.scalarBaseMult xprv.k)) =
      .ok (curve.scalarBaseMult xprv.k))
    (nonzero : ∀ visit ∈ visited hmac curve xprv path,
      XPrv.r hmac curve visit.1 visit.2.1 visit.2.2 ≠ 0) :
    DerivationCommutes hmac curve xprv path ↔
      ∀ visit ∈ visited hmac curve xprv path,
        256 ^ 31 ≤ XPrv.r hmac curve visit.1 visit.2.1 visit.2.2 := by
  constructor
  · intro commutes visit member
    exact (exact_child_iff hmac implements.order (nonzero visit member)).mp
      (commutes.exact visit member)
  · intro large
    refine ⟨fun visit member => ?_, fun plain => ?_⟩
    · exact (exact_child_iff hmac implements.order (nonzero visit member)).mpr (large visit member)
    · exact derive_commutes hmac implements plain recovers large

end Paths

def constantHmac (left : ℕ) (_ _ : List UInt8) : Bytes 64 :=
  ⟨toBytes 32 left ++ List.replicate 32 0, by
    rw [List.length_append, to_bytes_length, List.length_replicate]⟩

def oneKey : XPrv := constantHmac 1 [] []

theorem constant_front (left : ℕ) (key msg : List UInt8) :
    ofBytes ((constantHmac left key msg).1.take 32) = left % 256 ^ 32 := by
  change ofBytes ((toBytes 32 left ++ List.replicate 32 0).take 32) = _
  rw [List.take_left' (to_bytes_length 32 left), of_bytes_to_bytes_mod]

theorem constant_r (left : ℕ) (curve : Curve) (xprv : XPrv) (sel : List UInt8) (hardened : Bool) :
    xprv.r (constantHmac left) curve sel hardened = (left % 256 ^ 32 + xprv.k) % curve.n := by
  have front := congrArg (fun front => (front + xprv.k) % curve.n) (constant_front left [] [])
  cases hardened <;> exact front

theorem one_key_recovered :
    decompress (compress (exactCurve.scalarBaseMult oneKey.k)) =
      .ok (exactCurve.scalarBaseMult oneKey.k) :=
  recovered exact_curve_implements.toMultiplies (by decide +kernel)

theorem derivation_commutes_twice :
    DerivationCommutes (constantHmac (n - 2)) exactCurve oneKey [([1], false), ([2], false)] ∧
      DerivationCommutes (constantHmac (n - 2)) exactCurve oneKey [([1], true)] := by
  have large : ∀ path : List Step, (∀ visit ∈ visited (constantHmac (n - 2)) exactCurve oneKey path,
      n - 3 ≤ XPrv.r (constantHmac (n - 2)) exactCurve visit.1 visit.2.1 visit.2.2) →
      DerivationCommutes (constantHmac (n - 2)) exactCurve oneKey path := by
    intro path numbers
    refine (derivation_commutes_iff _ exactCurve exact_curve_implements oneKey path one_key_recovered
      fun visit member => ?_).mpr fun visit member => ?_
    · exact Nat.ne_of_gt (Nat.lt_of_lt_of_le (by decide) (numbers visit member))
    · exact Nat.le_trans (by decide) (numbers visit member)
  have second : (oneKey.nonhardenedChild (constantHmac (n - 2)) exactCurve [1]).k = n - 1 := by
    decide +kernel
  constructor
  · apply large
    change ∀ visit ∈ [(oneKey, ([1], false)),
      (oneKey.nonhardenedChild (constantHmac (n - 2)) exactCurve [1], ([2], false))], _
    simp only [List.forall_mem_cons, constant_r, second]
    refine ⟨?_, ?_, List.forall_mem_nil _⟩ <;> decide +kernel
  · apply large
    simp only [visited_one, List.forall_mem_cons, constant_r]
    exact ⟨by decide +kernel, List.forall_mem_nil _⟩

/-- The derived number one: the hardened child panics, and the other one holds the number
`256 ^ 31`, whose public key is not the derived one. -/
theorem short_number_not_derived :
    decompress (compress (exactCurve.scalarBaseMult oneKey.k)) =
        .ok (exactCurve.scalarBaseMult oneKey.k) ∧
      (∀ hardened, ∀ visit ∈ visited (constantHmac 0) exactCurve oneKey [([], hardened)],
        XPrv.r (constantHmac 0) exactCurve visit.1 visit.2.1 visit.2.2 = 1) ∧
      oneKey.child (constantHmac 0) exactCurve [] true = .error .panicked ∧
      (oneKey.nonhardenedChild (constantHmac 0) exactCurve []).1.take 32 =
        1 :: List.replicate 31 0 ∧
      ∀ key : XPrv, oneKey.derive (constantHmac 0) exactCurve [[]] = .ok key →
        (oneKey.xpub exactCurve).derive (constantHmac 0) exactCurve [[]] ≠
          .ok (key.xpub exactCurve) := by
  have numbers : ∀ hardened, XPrv.r (constantHmac 0) exactCurve oneKey [] hardened = 1 := by
    intro hardened
    rw [constant_r]
    decide +kernel
  refine ⟨one_key_recovered, ?_, by decide +kernel, by decide +kernel, ?_⟩
  · intro hardened
    simp only [visited_one, List.forall_mem_cons]
    exact ⟨numbers hardened, List.forall_mem_nil _⟩
  · intro key derived same
    have stored : (oneKey.nonhardenedChild (constantHmac 0) exactCurve []).k = 256 ^ 31 := by
      decide +kernel
    have child : oneKey.nonhardenedChild (constantHmac 0) exactCurve [] = key :=
      Except.ok.inj derived
    rw [XPub.derive, List.foldlM_cons, xpub_child _ exact_curve_implements [] one_key_recovered,
      numbers, ← child, XPrv.xpub, stored] at same
    have fronts := congrArg (fun xpub : XPub => xpub.1.take 33) (Except.ok.inj same)
    rw [exact_curve_implements.base, exact_curve_implements.base, xpub_of_front,
      xpub_of_front] at fronts
    have points := compress_injective (by rw [Ne, smul_base_eq_zero_iff]; decide +kernel)
      (by rw [Ne, smul_base_eq_zero_iff]; decide +kernel) fronts
    rw [smul_base_eq_iff] at points
    revert points
    decide +kernel

end PbftBlock.ExtendedKeys
