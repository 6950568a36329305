import PbftBlock.ExtendedKeys

/-!
# Signatures of extended keys

`Sign` of a private extended key writes the two numbers of a signature into 64 bytes, and
`Verify` of its public key reads them again. They are copied to the front of their halves, so
that a number with fewer than 32 bytes is read as another one. The points are those of
`ExtendedKeys`, over exact arithmetic in the field.
-/

namespace PbftBlock.ExtendedSignatures

open PbftBlock.Library.BigEndian PbftBlock.NodeKeys PbftBlock.CompressedPoints
open PbftBlock.CurveOrder PbftBlock.ExtendedKeys PbftBlock.Sm2Signatures
open PbftBlock.CurveAddition (gx affine_base)
open PbftBlock.Sm2 (Curve Point PrivateKey CryptoError)

set_option autoImplicit false

def sigBytes (r s : ℕ) : List UInt8 := (copyBytes 32 (minimal r)).1 ++ (copyBytes 32 (minimal s)).1

section Transcription

variable (curve : Curve)

/-- `Sign` panics with an error. -/
def XPrv.sign (xprv : XPrv) (msg : List UInt8) (draws : List Draw) :
    Option (Except CryptoError (List UInt8)) :=
  (signWith curve xprv.k msg draws).map fun
    | .ok (r, s) => .ok (sigBytes r s)
    | .error _ => .error .panicked

def XPub.publicKey (xpub : XPub) : List UInt8 := xpub.1.take 33

def verifyCompressedPubkey (compressedPublicKey hash signature : List UInt8) :
    Except CryptoError Bool := do
  let pubkey ← decompress compressedPublicKey
  if signature.length < 32 then .error .panicked
  else
    Sm2.verify curve (some pubkey) hash (ofBytes (signature.take 32)) (ofBytes (signature.drop 32))

def XPub.verify (xpub : XPub) (msg sig : List UInt8) : Except CryptoError Bool :=
  verifyCompressedPubkey curve (XPub.publicKey xpub) msg sig

/-- The bytes that `Sign` returns hold both numbers, and the public key accepts them. -/
def SignatureVerifies (xprv : XPrv) (msg : List UInt8) (draws : List Draw) (r s : ℕ) : Prop :=
  ∃ sig, XPrv.sign curve xprv msg draws = some (.ok sig) ∧ ofBytes (sig.take 32) = r ∧
    ofBytes (sig.drop 32) = s ∧ XPub.verify curve (xprv.xpub curve) msg sig = .ok true

end Transcription

/-- A number is read back from the front of 32 bytes if and only if it fills them. -/
theorem decoded_number {number : ℕ} (nonzero : number ≠ 0) (small : number < 256 ^ 32) :
    ofBytes (copyBytes 32 (minimal number)).1 = number ↔ 256 ^ 31 ≤ number := by
  constructor
  · intro same
    obtain ⟨first, more, bytes, leading⟩ := minimal_leading nonzero
    have positive : 1 ≤ first.toNat := Nat.one_le_iff_ne_zero.mpr fun zero =>
      leading (UInt8.toNat.inj zero)
    have split : (copyBytes 32 (minimal number)).1 =
        first :: (more.take 31 ++ List.replicate (31 - more.length) 0) := by
      rw [bytes]
      change (first :: more).take 32 ++ List.replicate (32 - (more.length + 1)) 0 = _
      rw [List.take_succ_cons, List.cons_append, Nat.succ_sub_succ]
    have length := (copyBytes 32 (minimal number)).2
    rw [split, List.length_cons] at length
    rw [split, of_bytes_cons, Nat.succ.inj length] at same
    rw [← same]
    exact Nat.le_add_right_of_le (Nat.le_mul_of_pos_left _ positive)
  · intro large
    have bytes := minimal_full large small
    have whole := congrArg Subtype.val (copy_bytes_whole (n := 32) ⟨_, to_bytes_length 32 number⟩)
    rw [bytes, whole, of_bytes_to_bytes small]

section Signing

variable {curve : Curve}

theorem accepted_range {pub : Sm2.PublicKey} {hash : List UInt8} {r s : ℕ}
    (accepted : Sm2.verify curve pub hash r s = .ok true) :
    (r ≠ 0 ∧ r < curve.n) ∧ (s ≠ 0 ∧ s < curve.n) := by
  unfold Sm2.verify at accepted
  split_ifs at accepted with low high
  · cases accepted
  · cases accepted
  · omega

variable (multiplies : Multiplies curve)

include multiplies

/-- What `Verify` decompresses: the point of the key, unless that is infinity. -/
theorem decompressed_key (xprv : XPrv) :
    decompress (XPub.publicKey (xprv.xpub curve)) =
      .ok (if n ∣ xprv.k then ⟨0, zeroRoot⟩ else curve.scalarBaseMult xprv.k) := by
  rw [XPub.publicKey, xpub_front multiplies]
  split_ifs with infinite
  · rw [multiplies.base, (smul_base_eq_zero_iff _).mpr infinite, decompress_infinity]
  · exact recovered multiplies infinite

theorem verify_own (xprv : XPrv) (msg : List UInt8) (r s : ℕ) :
    XPub.verify curve (xprv.xpub curve) msg (sigBytes r s) =
      Sm2.verify curve (some (if n ∣ xprv.k then ⟨0, zeroRoot⟩ else curve.scalarBaseMult xprv.k))
        msg (ofBytes (copyBytes 32 (minimal r)).1) (ofBytes (copyBytes 32 (minimal s)).1) := by
  have first := (copyBytes 32 (minimal r)).2
  have long : ¬(sigBytes r s).length < 32 := by
    rw [sigBytes, List.length_append, first]
    omega
  rw [XPub.verify, verifyCompressedPubkey, decompressed_key multiplies]
  change (if (sigBytes r s).length < 32 then _ else _) = _
  rw [if_neg long, sigBytes, List.take_left' first, List.drop_left' first]

variable (curve)

/-- A signature that `Verify` of the package accepts for the key is accepted by the extended
key if and only if both its numbers have 32 bytes and, for a private number that is a multiple
of the order, it is good for the point with first coordinate zero as well. -/
theorem own_signature_verifies_iff (xprv : XPrv) (msg : List UInt8) (draws : List Draw) (r s : ℕ)
    (signed : signWith curve xprv.k msg draws = some (.ok (r, s)))
    (accepted : Sm2.verify curve (some (curve.scalarBaseMult xprv.k)) msg r s = .ok true) :
    SignatureVerifies curve xprv msg draws r s ↔
      (256 ^ 31 ≤ r ∧ 256 ^ 31 ≤ s) ∧
        (n ∣ xprv.k → Sm2.verify curve (some ⟨0, zeroRoot⟩) msg r s = .ok true) := by
  have order := multiplies.order
  have large : n < 256 ^ 32 := by decide
  obtain ⟨⟨rNonzero, rBelow⟩, ⟨sNonzero, sBelow⟩⟩ := accepted_range accepted
  have first := decoded_number rNonzero (by omega)
  have second := decoded_number sNonzero (by omega)
  have written : XPrv.sign curve xprv msg draws = some (.ok (sigBytes r s)) := by
    rw [XPrv.sign, signed]
    rfl
  have front : (sigBytes r s).take 32 = (copyBytes 32 (minimal r)).1 :=
    List.take_left' (copyBytes 32 (minimal r)).2
  have back : (sigBytes r s).drop 32 = (copyBytes 32 (minimal s)).1 :=
    List.drop_left' (copyBytes 32 (minimal r)).2
  constructor
  · rintro ⟨sig, returned, decodedR, decodedS, verified⟩
    rw [written] at returned
    obtain rfl := Except.ok.inj (Option.some.inj returned)
    rw [front] at decodedR
    rw [back] at decodedS
    refine ⟨⟨first.mp decodedR, second.mp decodedS⟩, fun infinite => ?_⟩
    rw [verify_own multiplies, decodedR, decodedS, if_pos infinite] at verified
    exact verified
  · rintro ⟨⟨rLarge, sLarge⟩, infinite⟩
    refine ⟨_, written, ?_, ?_, ?_⟩
    · rw [front, first.mpr rLarge]
    · rw [back, second.mpr sLarge]
    · rw [verify_own multiplies, first.mpr rLarge, second.mpr sLarge]
      split_ifs with multiple
      · exact infinite multiple
      · exact accepted

end Signing

theorem verify_too_large {curve : Curve} {pub : Sm2.PublicKey} {hash : List UInt8} {r s : ℕ}
    (large : curve.n ≤ r) : Sm2.verify curve pub hash r s = .ok false := by
  unfold Sm2.verify
  split_ifs with low high
  · rfl
  · rfl
  · omega

theorem one_key_number : oneKey.k = 1 := by decide +kernel

theorem one_in_range : 1 ≤ 1 ∧ 1 < n := ⟨Nat.le_refl 1, prime_n.one_lt⟩

noncomputable def onePrivate : PrivateKey exactCurve := exactKey 1 one_in_range

/-- A message whose signature by the key one, with one drawn as nonce, has a chosen first
half. -/
def messageFor (r : ℕ) : List UInt8 := toBytes 32 ((r + (n - gx)) % n)

theorem exact_base_one : (exactCurve.scalarBaseMult 1).x = gx := by
  rw [exact_curve_implements.base, one_nsmul, affine_base]

theorem sign_r_chosen {r : ℕ} (below : r < n) :
    signR exactCurve (ofBytes (messageFor r)) 1 = r := by
  have fits : (r + (n - gx)) % n < 256 ^ 32 :=
    Nat.lt_trans (Nat.mod_lt _ prime_n.pos) (by decide)
  rw [signR, exact_base_one, messageFor, of_bytes_to_bytes fits]
  change (gx + (r + (n - gx)) % n) % n = r
  have less : gx < n := by decide
  rw [Nat.add_mod_mod, show gx + (r + (n - gx)) = r + n by omega, Nat.add_mod_right,
    Nat.mod_eq_of_lt below]

def chosenS (r : ℕ) : ℕ := (((1 : ℤ) - (1 * r : ℕ)) * (((n + 1) / 2 : ℕ) : ℤ) % n).toNat

section Chosen

variable {r : ℕ} (below : r < n) (nonzero : r ≠ 0) (second : chosenS r ≠ 0)

include below nonzero second

theorem turn_chosen :
    signTurn onePrivate (ofBytes (messageFor r)) 1 = some (.ok (r, chosenS r)) := by
  have inverse : modInverse (onePrivate.d + 1) exactCurve.n = some ((n + 1) / 2) := by
    decide +kernel
  rw [signTurn, signTurnWith, sign_r_chosen below, if_pos (Or.inl nonzero), inverse]
  exact if_pos second

theorem sign_chosen :
    signWith exactCurve oneKey.k (messageFor r) [drawOf 0] = some (.ok (r, chosenS r)) := by
  have drawn : randFieldElement exactCurve (drawOf 0) = 1 := by decide +kernel
  have order : exactCurve.n ≠ 0 := prime_n.ne_zero
  rw [one_key_number]
  have stopped := turn_chosen below nonzero second
  rw [signWith, if_neg order, List.map_cons, drawn, List.findSome?_cons,
    show signTurnWith exactCurve 1 (ofBytes (messageFor r)) 1 = _ from stopped]

theorem accepted_chosen (apart : r + 1 ≠ n) :
    Sm2.verify exactCurve (some (exactCurve.scalarBaseMult oneKey.k)) (messageFor r) r
      (chosenS r) = .ok true := by
  have cyclic := implements_cyclic exact_curve_implements
  have signed := sign_turn_ok cyclic prime_n.one_lt (turn_chosen below nonzero second)
  have verified := verify_signed cyclic prime_n.one_lt signed
  have good : decide (r + 1 ≠ exactCurve.n) = true := decide_eq_true apart
  rw [good] at verified
  rw [one_key_number]
  exact verified

end Chosen

theorem full_signature_verifies :
    SignatureVerifies exactCurve oneKey (messageFor (256 ^ 31)) [drawOf 0] (256 ^ 31)
      (chosenS (256 ^ 31)) := by
  have below : 256 ^ 31 < n := by decide
  have second : 256 ^ 31 ≤ chosenS (256 ^ 31) := by decide +kernel
  have nonzero : chosenS (256 ^ 31) ≠ 0 := by decide +kernel
  refine (own_signature_verifies_iff exactCurve exact_curve_implements.toMultiplies oneKey _ _ _ _
    (sign_chosen below (by decide) nonzero)
    (accepted_chosen below (by decide) nonzero (by decide))).mpr ⟨⟨Nat.le_refl _, second⟩, ?_⟩
  intro multiple
  rw [one_key_number] at multiple
  exact absurd (Nat.le_of_dvd Nat.one_pos multiple) (by decide)

/-- A first half of 31 bytes is read as a number above the order. -/
theorem short_signature_refused :
    signWith exactCurve oneKey.k (messageFor (256 ^ 31 - 1)) [drawOf 0] =
        some (.ok (256 ^ 31 - 1, chosenS (256 ^ 31 - 1))) ∧
      Sm2.verify exactCurve (some (exactCurve.scalarBaseMult oneKey.k))
        (messageFor (256 ^ 31 - 1)) (256 ^ 31 - 1 : ℕ) (chosenS (256 ^ 31 - 1)) = .ok true ∧
      XPrv.sign exactCurve oneKey (messageFor (256 ^ 31 - 1)) [drawOf 0] =
        some (.ok (sigBytes (256 ^ 31 - 1) (chosenS (256 ^ 31 - 1)))) ∧
      XPub.verify exactCurve (oneKey.xpub exactCurve) (messageFor (256 ^ 31 - 1))
        (sigBytes (256 ^ 31 - 1) (chosenS (256 ^ 31 - 1))) = .ok false := by
  have below : 256 ^ 31 - 1 < n := by decide
  have nonzero : chosenS (256 ^ 31 - 1) ≠ 0 := by decide +kernel
  have signed := sign_chosen below (by decide) nonzero
  refine ⟨signed, accepted_chosen below (by decide) nonzero (by decide), ?_, ?_⟩
  · rw [XPrv.sign, signed]
    rfl
  · have large : n ≤ ofBytes (copyBytes 32 (minimal (256 ^ 31 - 1))).1 := by decide +kernel
    rw [verify_own exact_curve_implements.toMultiplies]
    exact verify_too_large large

end PbftBlock.ExtendedSignatures
