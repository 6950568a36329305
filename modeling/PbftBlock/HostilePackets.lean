import PbftBlock.FindnodeReplies
import PbftBlock.PeerSignatures

/-!
# Discovery packets from anybody

`decodePacket` works on whatever arrives at the port. The last byte of a packet says
how many bytes behind the hash are its signature, and this may be more than the
field holds. The smallest packet that is let through has no byte for the type: with
a signature that verifies, the type is read out of an empty slice.
-/

namespace PbftBlock.HostilePackets

open PbftBlock.Library.BigEndian
open PbftBlock.DiscoveryPackets PbftBlock.FindnodeReplies PbftBlock.NodeKeys
open PbftBlock.PeerSignatures PbftBlock.Sm2 PbftBlock.Sm3
open PbftBlock.Sm2Signatures (dial dial_cyclic secondKey)

set_option autoImplicit false

variable {curve : Curve} {buf behind : List UInt8}

/-- The size of the buffer of `readLoop`, in which every packet lies. -/
def bufferSize : Nat := 1280

/-- The packet is long enough and begins with its hash, so that the rest is looked at. -/
def Processed (buf : List UInt8) : Prop :=
  headSize + 1 ≤ buf.length ∧ buf.take macSize = keccak256 [buf.drop macSize]

def sigLength (buf : List UInt8) : Nat := (buf.getLastD 0).toNat

/-- An index or a slice is out of range, or the crypto package works with nil. -/
def Panics (curve : Curve) (buf behind : List UInt8) : Prop :=
  decodePacket curve buf behind = .error .panicked ∨
    decodePacket curve buf behind = .error (.crypto .panicked)

/-- `decodePacket` returns, and what it took for the signature lies in the field. -/
structure DecodesSoundly (curve : Curve) (buf behind : List UInt8) : Prop where
  returns : ¬Panics curve buf behind
  inside : Processed buf → ∀ sig, resliceSig buf behind (sigLength buf) = some sig →
    sig <+: (buf.drop macSize).take sigSize

/-- The length in the packet stays in the field, the key in the signature can be used,
and a packet without a type has no valid signature. -/
structure Harmless (curve : Curve) (buf : List UInt8) : Prop where
  short : sigLength buf ≤ sigSize
  usable : CarriesUsable curve ((buf.drop macSize).take (sigLength buf))
  typed : buf.length = headSize + 1 → ∀ id,
    recoverNodeID curve (keccak256 [[]]) ((buf.drop macSize).take (sigLength buf)) ≠ .ok id

theorem sig_length_lt (buf : List UInt8) : sigLength buf < 256 := UInt8.toNat_lt _

theorem reslice_in_buffer (array : buf.length + behind.length = bufferSize)
    (long : headSize + 1 ≤ buf.length) :
    resliceSig buf behind (sigLength buf) =
      some (((buf ++ behind).drop macSize).take (sigLength buf)) := by
  have less := sig_length_lt buf
  change _ = 1280 at array
  change 173 ≤ _ at long
  have field : ((buf.drop macSize).take sigSize).length = sigSize := by
    rw [List.length_take, List.length_drop]
    change min 140 (_ - 32) = 140
    omega
  have room : ¬((buf ++ behind).drop macSize).length < sigLength buf := by
    rw [List.length_drop, List.length_append]
    change ¬_ - 32 < _
    omega
  rw [resliceSig, field]
  split_ifs with differ
  · rfl
  · have full : sigSize = sigLength buf := not_not.mp differ
    rw [← full, List.drop_append_of_le_length (by change 32 ≤ _; omega),
      List.take_append_of_le_length (by rw [List.length_drop]; change 140 ≤ _ - 32; omega)]

theorem reslice_in_field (long : headSize + 1 ≤ buf.length) (short : sigLength buf ≤ sigSize) :
    ((buf ++ behind).drop macSize).take (sigLength buf) =
      (buf.drop macSize).take (sigLength buf) := by
  change 173 ≤ _ at long
  change _ ≤ 140 at short
  rw [List.drop_append_of_le_length (by change 32 ≤ _; omega),
    List.take_append_of_le_length (by rw [List.length_drop]; change _ ≤ _ - 32; omega)]

theorem sigdata_empty_iff (long : headSize + 1 ≤ buf.length) :
    buf.dropLast.drop headSize = [] ↔ buf.length = headSize + 1 := by
  rw [List.drop_eq_nil_iff, List.length_dropLast]
  omega

theorem decode_unprocessed (curve : Curve) (behind : List UInt8) (bad : ¬Processed buf) :
    ∃ msg, decodePacket curve buf behind = .error (.text msg) := by
  unfold decodePacket
  by_cases small : buf.length < headSize + 1
  · rw [if_pos small]
    exact ⟨_, rfl⟩
  · have wrong : buf.take macSize ≠ keccak256 [buf.drop macSize] :=
      fun right => bad ⟨by omega, right⟩
    rw [if_neg small]
    dsimp only
    rw [if_pos wrong]
    exact ⟨_, rfl⟩

theorem recover_panics_iff (curve : Curve) (hash sig : List UInt8) :
    recoverNodeID curve hash sig = .error (.crypto .panicked) ↔ ¬CarriesUsable curve sig := by
  rw [← ecrecover_panics_iff curve hash sig, recoverNodeID]
  cases ecrecover curve hash sig with
  | error err => simp
  | ok pubkey =>
      refine iff_of_false ?_ (by simp)
      dsimp only
      split_ifs <;> simp

theorem recover_indexes (curve : Curve) (hash sig : List UInt8) :
    recoverNodeID curve hash sig ≠ .error .panicked := by
  rw [recoverNodeID]
  cases ecrecover curve hash sig with
  | error err => simp
  | ok pubkey =>
      dsimp only
      split_ifs <;> simp

/-- A packet that is looked at panics for the key, or for the type. -/
theorem decode_processed_panics_iff (curve : Curve) (processed : Processed buf) {sig : List UInt8}
    (taken : resliceSig buf behind (sigLength buf) = some sig) :
    Panics curve buf behind ↔
      ¬CarriesUsable curve sig ∨ (buf.dropLast.drop headSize = [] ∧
        ∃ id, recoverNodeID curve (keccak256 [[]]) sig = .ok id) := by
  obtain ⟨long, right⟩ := processed
  have crypto := recover_panics_iff curve (keccak256 [buf.dropLast.drop headSize]) sig
  have indexes := recover_indexes curve (keccak256 [buf.dropLast.drop headSize]) sig
  unfold sigLength at taken
  unfold Panics decodePacket
  rw [if_neg (Nat.not_lt.mpr long)]
  dsimp only
  rw [if_neg (not_not.mpr right), taken]
  dsimp only
  generalize buf.dropLast.drop headSize = sigdata at crypto indexes ⊢
  cases recovered : recoverNodeID curve (keccak256 [sigdata]) sig with
  | error err =>
      rw [recovered] at crypto indexes
      have untyped : ¬(sigdata = [] ∧ ∃ id, recoverNodeID curve (keccak256 [[]]) sig = .ok id) := by
        rintro ⟨rfl, id, other⟩
        rw [recovered] at other
        cases other
      have calm : Except.error err ≠
          (.error .panicked : Except PacketError (Packet × NodeID × List UInt8)) := by
        intro same
        exact indexes (congrArg Except.error (Except.error.inj same))
      rw [← crypto]
      constructor
      · rintro (panicked | panicked)
        · exact absurd panicked calm
        · exact .inl (congrArg Except.error (Except.error.inj panicked))
      · rintro (panicked | both)
        · exact .inr (congrArg Except.error (Except.error.inj panicked))
        · exact absurd both untyped
  | ok id =>
      have usable : CarriesUsable curve sig := by
        by_contra unusable
        rw [crypto.mpr unusable] at recovered
        cases recovered
      dsimp only
      cases sigdata with
      | nil => exact iff_of_true (.inl rfl) (.inr ⟨rfl, id, recovered⟩)
      | cons ptype body =>
          refine iff_of_false ?_ (by simp [usable])
          dsimp only
          cases requestDecoder ptype with
          | none => simp
          | some decoder =>
              dsimp only
              cases decoder (RlpStream.newStream body 0) <;> simp

/-- For every packet in the buffer: it is decoded or refused, with the signature taken
out of its field, exactly when it is not looked at or does no harm. -/
theorem decode_packet_sound_iff (curve : Curve) (array : buf.length + behind.length = bufferSize) :
    DecodesSoundly curve buf behind ↔ (Processed buf → Harmless curve buf) := by
  by_cases processed : Processed buf
  · have long := processed.1
    have taken := reslice_in_buffer array long
    have panics := decode_processed_panics_iff curve processed taken
    rw [sigdata_empty_iff long] at panics
    constructor
    · intro sound _
      have inside := (sound.inside processed _ taken).length_le
      have short : sigLength buf ≤ sigSize := by
        have less := sig_length_lt buf
        rw [List.length_take, List.length_drop, List.length_append, array, List.length_take] at inside
        change min _ (1280 - 32) ≤ min 140 _ at inside
        change _ ≤ 140
        omega
      rw [reslice_in_field long short] at panics
      have calm := mt panics.mpr sound.returns
      refine ⟨short, not_not.mp fun unusable => calm (.inl unusable), ?_⟩
      intro smallest id recovered
      exact calm (.inr ⟨smallest, id, recovered⟩)
    · intro harmless
      obtain ⟨short, usable, typed⟩ := harmless processed
      rw [reslice_in_field long short] at panics taken
      have calm : ¬Panics curve buf behind := by
        rw [panics]
        rintro (unusable | ⟨smallest, id, recovered⟩)
        · exact unusable usable
        · exact typed smallest id recovered
      refine ⟨calm, fun _ sig same => ?_⟩
      rw [taken] at same
      obtain rfl := Option.some.inj same
      exact List.take_prefix_take_left short
  · obtain ⟨msg, refused⟩ := decode_unprocessed curve behind processed
    refine iff_of_true ⟨?_, ?_⟩ fun yes => absurd yes processed
    · rw [Panics, refused]
      simp
    · exact fun yes => absurd yes processed

section Packets

def hashed (sig payload : List UInt8) : List UInt8 :=
  keccak256 [signedPart sig payload] ++ signedPart sig payload

variable {sig : List UInt8}

theorem hashed_length (payload : List UInt8) (fits : sig.length ≤ sigSize) :
    (hashed sig payload).length = headSize + payload.length + 1 := by
  rw [hashed, List.length_append, keccak256_length, signed_part_length payload fits]
  change 32 + (140 + _ + 1) = 32 + 140 + _ + 1
  omega

theorem hashed_processed (payload : List UInt8) (fits : sig.length ≤ sigSize) :
    Processed (hashed sig payload) := by
  have hash : (keccak256 [signedPart sig payload]).length = macSize := keccak256_length _
  refine ⟨by rw [hashed_length payload fits]; omega, ?_⟩
  rw [hashed, List.take_left' hash, List.drop_left' hash]

theorem hashed_sig_length (payload : List UInt8) (fits : sig.length ≤ sigSize) :
    sigLength (hashed sig payload) = sig.length := by
  rw [sigLength, hashed, (framed_payload payload (keccak256_length _) fits).2, length_byte fits]

theorem hashed_taken (payload behind : List UInt8) (fits : sig.length ≤ sigSize) :
    resliceSig (hashed sig payload) behind (sigLength (hashed sig payload)) = some sig := by
  rw [hashed_sig_length payload fits]
  exact reslice_signed payload behind (keccak256_length _) fits

theorem decode_packet_sound_on_dial :
    Processed (hashed [] [1]) ∧
      DecodesSoundly dial (hashed [] [1]) (List.replicate (bufferSize - 174) 0) := by
  have length : (hashed [] [1]).length = 174 := hashed_length [1] (Nat.zero_le _)
  have none : sigLength (hashed [] [1]) = 0 := hashed_sig_length [1] (Nat.zero_le _)
  have array : (hashed [] [1]).length + (List.replicate (bufferSize - 174) (0 : UInt8)).length =
      bufferSize := by
    rw [length, List.length_replicate]
    rfl
  refine ⟨hashed_processed [1] (Nat.zero_le _), (decode_packet_sound_iff dial array).mpr fun _ => ?_⟩
  refine ⟨by rw [none]; exact Nat.zero_le _, ?_, ?_⟩
  · rw [none, List.take_zero]
    intro v r s parsed
    cases parsed
  · intro smallest
    rw [length] at smallest
    cases smallest

theorem untyped_packet_panics (behind : List UInt8) :
    ∃ sig, (hashed sig []).length = headSize + 1 ∧ Panics dial (hashed sig []) behind := by
  have verifies : Verifies secondKey dialDraws :=
    verifies_of_invertible dial_cyclic dial_genuine (by decide)
  obtain ⟨digits, _, right⟩ := verifies (keccak256 [[]])
  have fits : (NodeKeys.sign secondKey digits).length ≤ sigSize := sign_length dial_lawful right
  have processed := hashed_processed [] fits
  have length : (hashed (NodeKeys.sign secondKey digits) []).length = headSize + 1 :=
    hashed_length [] fits
  refine ⟨NodeKeys.sign secondKey digits, length, ?_⟩
  rw [decode_processed_panics_iff dial processed (hashed_taken [] behind fits)]
  exact .inr ⟨(sigdata_empty_iff processed.1).mpr length, _, recover_signer dial_lawful right⟩

theorem keyless_packet_panics (curve : Curve) (behind : List UInt8) :
    Panics curve (hashed (signDigitToSignData [] 1 1) [1]) behind := by
  have fits : (signDigitToSignData [] 1 1).length ≤ sigSize := by decide +kernel
  rw [decode_processed_panics_iff curve (hashed_processed [1] fits) (hashed_taken [1] behind fits)]
  refine .inl fun usable => ?_
  exact (usable [] 1 1 (by decide +kernel)).1 rfl

def stretched : List UInt8 :=
  keccak256 [List.replicate 141 0 ++ [200]] ++ (List.replicate 141 0 ++ [200])

theorem stretched_signature (behind : List UInt8)
    (array : stretched.length + behind.length = bufferSize) :
    Processed stretched ∧
      ∃ sig, resliceSig stretched behind (sigLength stretched) = some sig ∧ sig.length = 200 := by
  have hash : (keccak256 [List.replicate 141 0 ++ [200]]).length = macSize := keccak256_length _
  have length : stretched.length = 174 := by
    rw [stretched, List.length_append, hash, List.length_append, List.length_replicate]
    rfl
  have last : sigLength stretched = 200 := by
    rw [sigLength, stretched, ← List.append_assoc, List.getLastD_concat]
    rfl
  have processed : Processed stretched := by
    refine ⟨by rw [length]; decide, ?_⟩
    rw [stretched, List.take_left' hash, List.drop_left' hash]
  refine ⟨processed, _, reslice_in_buffer array processed.1, ?_⟩
  rw [last, List.length_take, List.length_drop, List.length_append, array]
  rfl

/-- Two packets that panic, and one whose signature goes on behind its field. -/
theorem hostile_packets_decoded :
    (∀ behind, ∃ sig, (hashed sig []).length = 173 ∧ Panics dial (hashed sig []) behind) ∧
    (∀ curve behind, Panics curve (hashed (signDigitToSignData [] 1 1) [1]) behind) ∧
    (∀ behind, stretched.length + behind.length = bufferSize → Processed stretched ∧
      ∃ sig, resliceSig stretched behind (sigLength stretched) = some sig ∧ sig.length = 200) :=
  ⟨untyped_packet_panics, keyless_packet_panics, stretched_signature⟩

end Packets

end PbftBlock.HostilePackets
