import PbftBlock.Library.Rlp
import PbftBlock.RlpEncoding
import PbftBlock.Sm2Signatures

/-!
# Checking the signature of a peer

`ValidateSig` takes the public key out of the signature that the peer sent. A key
that does not decode is a nil pointer or a pair of nil coordinates, and nobody asks
before the curve is called with it: an empty key ends the program at once, one that
is no point as soon as the two numbers pass the tests of `Verify`.
-/

namespace PbftBlock.PeerSignatures

open PbftBlock.Library.BigEndian PbftBlock.Library.Der PbftBlock.Library.Rlp
open PbftBlock.NodeKeys PbftBlock.Sm2 PbftBlock.Sm3
open PbftBlock.Sm2Signatures (dial secondKey)

set_option autoImplicit false

section Transcription

def base64Value (c : UInt8) : Option Nat :=
  if 65 ≤ c ∧ c ≤ 90 then some (c.toNat - 65)
  else if 97 ≤ c ∧ c ≤ 122 then some (c.toNat - 71)
  else if 48 ≤ c ∧ c ≤ 57 then some (c.toNat + 4)
  else if c = 43 then some 62
  else if c = 47 then some 63
  else none

/-- Four characters at a time, and whether all of them are well formed. What was
decoded before an error is kept; what follows the padding is one. -/
def decodeQuanta : List UInt8 → List UInt8 × Bool
  | [] => ([], true)
  | c0 :: c1 :: c2 :: c3 :: rest =>
      match base64Value c0, base64Value c1, base64Value c2, base64Value c3 with
      | some a, some b, some c, some d =>
          let more := decodeQuanta rest
          (toBytes 3 (a * 2 ^ 18 + b * 2 ^ 12 + c * 2 ^ 6 + d) ++ more.1, more.2)
      | some a, some b, some c, none =>
          if c3 = 61 then ((toBytes 3 (a * 2 ^ 18 + b * 2 ^ 12 + c * 2 ^ 6)).take 2, rest.isEmpty)
          else ([], false)
      | some a, some b, none, none =>
          if c2 = 61 ∧ c3 = 61 then ((toBytes 3 (a * 2 ^ 18 + b * 2 ^ 12)).take 1, rest.isEmpty)
          else ([], false)
      | _, _, _, _ => ([], false)
  | _ => ([], false)

/-- `base64.StdEncoding.DecodeString`, which skips line ends. -/
def decodeString (s : List UInt8) : List UInt8 × Bool :=
  decodeQuanta (s.filter fun c => c ≠ 10 ∧ c ≠ 13)

structure Signature where
  v : List UInt8
  r : Nat
  s : Nat
deriving DecidableEq

structure CommunicationInfo where
  payLoad : List UInt8
  sig : Signature
  vrs : List UInt8
deriving DecidableEq

/-- `RlpHash` of the list whose only element is the payload. -/
def CommunicationInfo.sigHash (ci : CommunicationInfo) : List UInt8 :=
  keccak256 (RlpEncoding.writeStruct [RlpEncoding.encodeString ci.payLoad] {}).toWriter

/-- `ValidateSig`: the signature is accepted, or it returns false with the error. -/
def validateSig (curve : Curve) (nodepk : List UInt8) (cinfo : CommunicationInfo) :
    Except CryptoError Unit :=
  let sig := signDigitToSignData cinfo.sig.v cinfo.sig.r cinfo.sig.s
  match ecrecover curve cinfo.sigHash sig with
  | .error err => .error err
  | .ok pub =>
      -- the error of the decoder is dropped
      let b := (decodeString nodepk).1
      if pub = b then .ok () else .error (.text "nodepk and pk is not equal")

end Transcription

section Messages

def protocolMaxMsgSize : Nat := 100 * 1024 * 1024

def CommunicationInfo.rlp (ci : CommunicationInfo) : List UInt8 :=
  list [string ci.payLoad, list [string ci.sig.v, number ci.sig.r, number ci.sig.s], string ci.vrs]

/-- `handleMsg` refuses larger messages before it decodes them. -/
def Sendable (ci : CommunicationInfo) : Prop := ci.rlp.length ≤ protocolMaxMsgSize

variable {ci : CommunicationInfo}

theorem sendable_parts (sent : Sendable ci) :
    ci.sig.v.length + (minimal ci.sig.r).length + (minimal ci.sig.s).length ≤ 104857600 := by
  have whole : ci.rlp.length ≤ 104857600 := sent
  have key := string_length_ge ci.sig.v
  have r : (minimal ci.sig.r).length ≤ (number ci.sig.r).length := string_length_ge _
  have s : (minimal ci.sig.s).length ≤ (number ci.sig.s).length := string_length_ge _
  rw [CommunicationInfo.rlp, list_length] at whole
  simp only [List.flatten_cons, List.flatten_nil, List.length_append, List.length_nil,
    list_length [string ci.sig.v, number ci.sig.r, number ci.sig.s]] at whole
  omega

theorem unsigned_length_minimal (n : Nat) : (unsigned n).length ≤ (minimal n).length + 1 :=
  unsigned_length ((minimal_length_le_iff _ _).mp (Nat.le_refl _))

theorem sent_signature_read (sent : Sendable ci) :
    signDataToSignDigit (signDigitToSignData ci.sig.v ci.sig.r ci.sig.s) =
      some (ci.sig.v, (ci.sig.r : Int), (ci.sig.s : Int)) := by
  have parts := sendable_parts sent
  have r := unsigned_length_minimal ci.sig.r
  have s := unsigned_length_minimal ci.sig.s
  have first := long_element_length 0x04 (show ci.sig.v.length < 2 ^ 31 by omega)
  have second := long_element_length 0x02 (show (unsigned ci.sig.r).length < 2 ^ 31 by omega)
  have third := long_element_length 0x02 (show (unsigned ci.sig.s).length < 2 ^ 31 by omega)
  apply sign_data_written
  rw [List.length_append, List.length_append]
  omega

end Messages

section Panics

variable {curve : Curve}

/-- The two numbers pass the tests of `Verify`, and the curve is used. -/
def Computes (curve : Curve) (r s : Int) : Prop :=
  0 < r ∧ r < curve.n ∧ 0 < s ∧ s < curve.n ∧ (r + s) % (curve.n : Int) ≠ 0

/-- A key on which the check does not work with nil: it has bytes, and it is a point
unless the numbers are refused before. -/
def Usable (curve : Curve) (v : List UInt8) (r s : Int) : Prop :=
  v ≠ [] ∧ (Computes curve r s → unmarshal curve v ≠ none)

def CarriesUsable (curve : Curve) (sig : List UInt8) : Prop :=
  ∀ v r s, signDataToSignDigit sig = some (v, r, s) → Usable curve v r s

theorem carries_usable_parsed {sig v : List UInt8} {r s : Int}
    (parsed : signDataToSignDigit sig = some (v, r, s)) :
    CarriesUsable curve sig ↔ Usable curve v r s := by
  constructor
  · intro carries
    exact carries v r s parsed
  · intro usable v' r' s' again
    rw [parsed] at again
    obtain ⟨rfl, rest⟩ := Prod.mk.inj (Option.some.inj again)
    obtain ⟨rfl, rfl⟩ := Prod.mk.inj rest
    exact usable

theorem sm2_verify_panics_iff (pub : PublicKey) (hash : List UInt8) (r s : Int) :
    Sm2.verify curve pub hash r s = .error .panicked ↔ pub = none ∧ Computes curve r s := by
  unfold Sm2.verify Computes
  split_ifs with low high
  · exact iff_of_false (by simp) (by omega)
  · exact iff_of_false (by simp) (by omega)
  · have total : ((r.toNat + s.toNat) % curve.n : Nat) = (r + s) % (curve.n : Int) := by
      push_cast
      rw [Int.toNat_of_nonneg (by omega), Int.toNat_of_nonneg (by omega)]
    dsimp only
    split_ifs with zero
    · rw [zero] at total
      refine iff_of_false (by simp) ?_
      rintro ⟨_, _, _, _, _, nonzero⟩
      exact nonzero total.symm
    · have nonzero : (r + s) % (curve.n : Int) ≠ 0 := by
        rw [← total]
        exact_mod_cast zero
      cases pub with
      | none => exact iff_of_true rfl ⟨rfl, by omega, by omega, by omega, by omega, nonzero⟩
      | some point => exact iff_of_false (by simp) (by simp)

theorem sm2_verify_answers (pub : PublicKey) (hash : List UInt8) (r s : Int) :
    Sm2.verify curve pub hash r s = .error .panicked ∨
      ∃ answer, Sm2.verify curve pub hash r s = .ok answer := by
  unfold Sm2.verify
  split_ifs
  · exact .inr ⟨false, rfl⟩
  · exact .inr ⟨false, rfl⟩
  · dsimp only
    split_ifs
    · exact .inr ⟨false, rfl⟩
    · cases pub with
      | none => exact .inl rfl
      | some point => exact .inr ⟨_, rfl⟩

theorem verify_panics_iff (curve : Curve) (hash sig : List UInt8) :
    NodeKeys.verify curve hash sig = .error .panicked ↔ ¬CarriesUsable curve sig := by
  cases parsed : signDataToSignDigit sig with
  | none =>
      rw [NodeKeys.verify, parsed]
      refine iff_of_false (by simp) (not_not.mpr ?_)
      intro v r s other
      rw [parsed] at other
      cases other
  | some parts =>
      obtain ⟨v, r, s⟩ := parts
      rw [carries_usable_parsed parsed, NodeKeys.verify, parsed]
      dsimp only
      rw [toECDSAPub]
      by_cases empty : v = []
      · subst empty
        exact iff_of_true rfl fun usable => usable.1 rfl
      · rw [if_neg (by simpa using empty)]
        refine (sm2_verify_panics_iff (unmarshal curve v) hash r s).trans ?_
        rw [Usable]
        tauto

theorem verify_answers (curve : Curve) (hash sig : List UInt8) :
    NodeKeys.verify curve hash sig = .error .panicked ∨ ∃ answer, NodeKeys.verify curve hash sig = .ok answer := by
  unfold NodeKeys.verify
  cases signDataToSignDigit sig with
  | none => exact .inr ⟨false, rfl⟩
  | some parts =>
      dsimp only
      cases toECDSAPub curve parts.1 with
      | none => exact .inl rfl
      | some pub => exact sm2_verify_answers pub hash _ _

theorem ecrecover_panics_iff (curve : Curve) (hash sig : List UInt8) :
    ecrecover curve hash sig = .error .panicked ↔ ¬CarriesUsable curve sig := by
  rw [← verify_panics_iff curve hash sig, ecrecover]
  rcases verify_answers curve hash sig with panics | ⟨answer, answered⟩
  · rw [panics]
    exact iff_of_true rfl rfl
  · rw [answered]
    refine iff_of_false ?_ (by simp)
    cases answer with
    | false => simp
    | true =>
        dsimp only
        cases signDataToSignDigit sig <;> simp

theorem ecrecover_ok {hash sig pub : List UInt8} (recovered : ecrecover curve hash sig = .ok pub) :
    ∃ r s point, signDataToSignDigit sig = some (pub, r, s) ∧
      unmarshal curve pub = some point ∧ Sm2.verify curve (some point) hash r s = .ok true := by
  unfold ecrecover at recovered
  cases checked : NodeKeys.verify curve hash sig with
  | error err =>
      rw [checked] at recovered
      cases recovered
  | ok answer =>
      rw [checked] at recovered
      cases answer with
      | false => cases recovered
      | true =>
          dsimp only at recovered
          cases parsed : signDataToSignDigit sig with
          | none =>
              rw [parsed] at recovered
              cases recovered
          | some parts =>
              obtain ⟨v, r, s⟩ := parts
              rw [parsed] at recovered
              obtain rfl := Except.ok.inj recovered
              rw [NodeKeys.verify, parsed] at checked
              dsimp only at checked
              unfold toECDSAPub at checked
              split_ifs at checked
              dsimp only at checked
              cases key : unmarshal curve v with
              | none =>
                  rw [key] at checked
                  -- without a point it answers false at best
                  unfold Sm2.verify at checked
                  dsimp only at checked
                  split_ifs at checked <;> cases checked
              | some point =>
                  rw [key] at checked
                  exact ⟨r, s, point, rfl, rfl, checked⟩

end Panics

section Totality

variable {curve : Curve}

/-- `ValidateSig` returns, and accepts only under the key in the signature, which is
the configured one. -/
structure Checked (curve : Curve) (nodepk : List UInt8) (cinfo : CommunicationInfo) : Prop where
  returns : validateSig curve nodepk cinfo ≠ .error .panicked
  accepts : validateSig curve nodepk cinfo = .ok () →
    cinfo.sig.v = (decodeString nodepk).1 ∧
      ∃ point, unmarshal curve cinfo.sig.v = some point ∧
        Sm2.verify curve (some point) cinfo.sigHash cinfo.sig.r cinfo.sig.s = .ok true

theorem validate_sig_panics_iff (curve : Curve) (nodepk : List UInt8) (cinfo : CommunicationInfo) :
    validateSig curve nodepk cinfo = .error .panicked ↔
      ecrecover curve cinfo.sigHash
        (signDigitToSignData cinfo.sig.v cinfo.sig.r cinfo.sig.s) = .error .panicked := by
  unfold validateSig
  dsimp only
  cases ecrecover curve cinfo.sigHash
      (signDigitToSignData cinfo.sig.v cinfo.sig.r cinfo.sig.s) with
  | error err => simp
  | ok pub =>
      refine iff_of_false ?_ (by simp)
      dsimp only
      split_ifs <;> simp

theorem validate_sig_accepts {nodepk : List UInt8} {cinfo : CommunicationInfo}
    (sent : Sendable cinfo) (accepted : validateSig curve nodepk cinfo = .ok ()) :
    cinfo.sig.v = (decodeString nodepk).1 ∧
      ∃ point, unmarshal curve cinfo.sig.v = some point ∧
        Sm2.verify curve (some point) cinfo.sigHash cinfo.sig.r cinfo.sig.s = .ok true := by
  unfold validateSig at accepted
  dsimp only at accepted
  cases recovered : ecrecover curve cinfo.sigHash
      (signDigitToSignData cinfo.sig.v cinfo.sig.r cinfo.sig.s) with
  | error err =>
      rw [recovered] at accepted
      cases accepted
  | ok pub =>
      rw [recovered] at accepted
      dsimp only at accepted
      split_ifs at accepted with same
      obtain ⟨r, s, point, parsed, key, right⟩ := ecrecover_ok recovered
      rw [sent_signature_read sent] at parsed
      obtain ⟨rfl, rest⟩ := Prod.mk.inj (Option.some.inj parsed)
      obtain ⟨rfl, rfl⟩ := Prod.mk.inj rest
      exact ⟨same, point, key, right⟩

/-- The checks of a signature return exactly when the key in it can be used. -/
theorem signature_checks_return_iff (curve : Curve) :
    (∀ nodepk cinfo, Sendable cinfo →
      (Checked curve nodepk cinfo ↔ Usable curve cinfo.sig.v cinfo.sig.r cinfo.sig.s)) ∧
    (∀ hash sig, (∃ answer, NodeKeys.verify curve hash sig = .ok answer) ↔ CarriesUsable curve sig) ∧
    (∀ hash sig, ecrecover curve hash sig ≠ .error .panicked ↔ CarriesUsable curve sig) := by
  refine ⟨?_, ?_, ?_⟩
  · intro nodepk cinfo sent
    have panics := (validate_sig_panics_iff curve nodepk cinfo).trans
      (ecrecover_panics_iff curve _ _)
    rw [carries_usable_parsed (sent_signature_read sent)] at panics
    constructor
    · intro checked
      exact not_not.mp (mt panics.mpr checked.returns)
    · intro usable
      exact ⟨fun panicked => panics.mp panicked usable, validate_sig_accepts sent⟩
  · intro hash sig
    have panics := verify_panics_iff curve hash sig
    constructor
    · rintro ⟨answer, answered⟩
      refine not_not.mp (mt panics.mpr ?_)
      simp [answered]
    · intro usable
      exact (verify_answers curve hash sig).resolve_left fun panicked => panics.mp panicked usable
  · intro hash sig
    exact (ecrecover_panics_iff curve hash sig).not_left

theorem signature_checks_return_on_dial :
    Sendable ⟨[1], ⟨marshal secondKey.point, 1, 1⟩, []⟩ ∧
      Checked dial [] ⟨[1], ⟨marshal secondKey.point, 1, 1⟩, []⟩ := by
  have sent : Sendable ⟨[1], ⟨marshal secondKey.point, 1, 1⟩, []⟩ := by
    unfold Sendable
    decide +kernel
  have usable : Usable dial (marshal secondKey.point) (1 : Nat) (1 : Nat) := by
    refine ⟨by simp [marshal], fun _ => ?_⟩
    decide +kernel
  exact ⟨sent, ((signature_checks_return_iff dial).1 [] _ sent).mpr usable⟩

/-- A peer that sends no key, or one byte for it and two small numbers, ends the
node. -/
theorem nil_keys_panic :
    (∀ curve nodepk, validateSig curve nodepk ⟨[1], ⟨[], 1, 1⟩, []⟩ = .error .panicked) ∧
    (∀ curve nodepk, 2 < curve.n →
      validateSig curve nodepk ⟨[1], ⟨[4], 1, 1⟩, []⟩ = .error .panicked) := by
  constructor
  · intro curve nodepk
    rw [validate_sig_panics_iff, ecrecover_panics_iff]
    intro usable
    exact (usable [] 1 1 (by decide +kernel)).1 rfl
  · intro curve nodepk large
    have computes : Computes curve 1 1 := by
      refine ⟨by decide, by omega, by decide, by omega, ?_⟩
      rw [Int.emod_eq_of_lt (by decide) (by omega)]
      decide
    rw [validate_sig_panics_iff, ecrecover_panics_iff]
    intro usable
    exact (usable [4] 1 1 (by decide +kernel)).2 computes rfl

end Totality

end PbftBlock.PeerSignatures
