import PbftBlock.PeerSignatures
import PbftBlock.RlpxHandshake

/-!
# Handshakes with a hostile peer

The receiver of a handshake works on bytes of a peer it knows nothing about. The
message says how much of its signature field is the signature, and the packet says
how long it is. Neither number is held against the bounds it is used with: a size
above 140 is a slice out of range, and an announced length within 13 bytes of the
smallest one wraps around in sixteen bits.
-/

namespace PbftBlock.HostileHandshakes

open PbftBlock.Library.BigEndian PbftBlock.Library.FallibleMethods
open PbftBlock.NodeKeys PbftBlock.PeerSignatures PbftBlock.RlpStream PbftBlock.RlpxHandshake
open PbftBlock.Sm2

set_option autoImplicit false

variable {curve : Curve}

section Messages

/-- The coordinates that `ScalarMult` returns are reduced, whatever it is given. -/
def Bounded (curve : Curve) : Prop := ∀ point k, (curve.scalarMult point k).x < 256 ^ 32

theorem shared_secret_total (bounded : Bounded curve) (prv : PrivateKey curve) (point : Point) :
    ∃ token, generateShared prv (some point) sskLen sskLen = .ok token := by
  have short := (pad_minimal (bounded point prv.d)).1
  have fits : ¬sskLen + sskLen < (minimal (curve.scalarMult point prv.d).x).length :=
    Nat.not_lt.mpr short
  rw [generateShared, if_neg (by decide)]
  dsimp only
  rw [if_neg fits]
  exact ⟨_, rfl⟩

theorem with_crypto_panics_iff {α β : Type} (result : Except CryptoError α)
    (next : α → Except HandshakeError β) :
    withCrypto result next = .error (.crypto .panicked) ↔
      result = .error .panicked ∨
        ∃ value, result = .ok value ∧ next value = .error (.crypto .panicked) := by
  cases result with
  | error err => simp [withCrypto]
  | ok value => simp [withCrypto]

theorem import_public_key_returns (curve : Curve) (pubKey : List UInt8) :
    importPublicKey curve pubKey ≠ .error (.crypto .panicked) := by
  unfold importPublicKey
  by_cases length : pubKey.length ≠ 64 ∧ pubKey.length ≠ 65
  · rw [if_pos length]
    simp
  · rw [if_neg length]
    cases unmarshal curve (if pubKey.length = 64 then 0x04 :: pubKey else pubKey) <;> simp

theorem handle_auth_msg_panics_iff (bounded : Bounded curve) (h : EncHandshake curve)
    (msg : AuthMsgV4) (prv : PrivateKey curve) (drawn : Random curve) :
    h.handleAuthMsg msg prv drawn = .error (.crypto .panicked) ↔
      ¬(msg.sigSize ≤ sigLen ∧ CarriesUsable curve (msg.signature.1.take msg.sigSize)) := by
  obtain ⟨token, shared⟩ := shared_secret_total bounded prv
    ⟨ofBytes (msg.initiatorPubkey.1.take 32), ofBytes (msg.initiatorPubkey.1.drop 32)⟩
  change generateShared prv (NodeID.pubkey msg.initiatorPubkey) sskLen sskLen = _ at shared
  unfold EncHandshake.handleAuthMsg EncHandshake.staticSharedSecret
  dsimp only
  rw [with_crypto_ok shared, with_crypto_panics_iff]
  by_cases fits : msg.sigSize ≤ sigLen
  · have cut : msg.sig = .ok (msg.signature.1.take msg.sigSize) := by
      rw [AuthMsgV4.sig, if_neg (Nat.not_lt.mpr fits)]
    have recovers := ecrecover_panics_iff curve (xor token msg.nonce.1)
      (msg.signature.1.take msg.sigSize)
    rw [cut]
    constructor
    · rintro (panicked | ⟨sig, taken, panicked⟩) ⟨_, usable⟩
      · cases panicked
      · obtain rfl := Except.ok.inj taken
        rw [with_crypto_panics_iff] at panicked
        rcases panicked with panicked | ⟨pub, _, panicked⟩
        · exact recovers.mp panicked usable
        · have returned := import_public_key_returns curve pub
          cases imported : importPublicKey curve pub with
          | error err =>
              rw [imported] at panicked returned
              obtain rfl := Except.error.inj panicked
              exact returned rfl
          | ok point =>
              rw [imported] at panicked
              cases panicked
    · intro unusable
      refine .inr ⟨_, rfl, ?_⟩
      rw [with_crypto_panics_iff]
      exact .inl (recovers.mpr fun usable => unusable ⟨fits, usable⟩)
  · have cut : msg.sig = .error .panicked := by
      rw [AuthMsgV4.sig, if_pos (Nat.lt_of_not_le fits)]
    exact iff_of_true (.inl cut) fun both => fits both.1

/-- The signature field is cut by a size the peer chose, and the key in it is used as
it is. -/
theorem auth_msg_handled_iff (bounded : Bounded curve) (h : EncHandshake curve) (msg : AuthMsgV4)
    (prv : PrivateKey curve) (drawn : Random curve) :
    h.handleAuthMsg msg prv drawn ≠ .error (.crypto .panicked) ↔
      msg.sigSize ≤ sigLen ∧ CarriesUsable curve (msg.signature.1.take msg.sigSize) :=
  (handle_auth_msg_panics_iff bounded h msg prv drawn).not_left

theorem clock_bounded : Bounded clock := by
  intro point k
  exact Nat.lt_trans (clock_reduced _) (by decide)

def forged (signature : List UInt8) (sigSize : Nat) : AuthMsgV4 where
  signature := copyBytes sigLen signature
  initiatorPubkey := pubkeyID alice.point
  nonce := copyBytes shaLen []
  version := 4
  sigSize := sigSize

def shortSignature (v : List UInt8) : List UInt8 := signDigitToSignData v 1 1

theorem auth_msg_handled_on_clock :
    Bounded clock ∧
      ({} : EncHandshake clock).handleAuthMsg (forged (shortSignature (marshal alice.point)) 76) bob
        (drawing 3) ≠ .error (.crypto .panicked) := by
  refine ⟨clock_bounded, (auth_msg_handled_iff clock_bounded _ _ _ _).mpr ⟨by decide, ?_⟩⟩
  have parsed : signDataToSignDigit
      ((forged (shortSignature (marshal alice.point)) 76).signature.1.take 76) =
        some (marshal alice.point, 1, 1) := by
    decide +kernel
  refine (carries_usable_parsed parsed).mpr ⟨by simp [marshal], fun _ => ?_⟩
  rw [unmarshal_key clock_lawful]
  simp

/-- Whatever message the peer makes up, it can send it in a packet. -/
theorem clock_delivers (msg : AuthMsgV4) (fresh : msg.gotPlain = false) (plain : msg.rest = [])
    (version : msg.version < 2 ^ 64) (sigSize : msg.sigSize < 2 ^ 64) :
    ∃ packet, readHandshakeMsg authFormat encAuthMsgLen bob ⟨packet, []⟩ =
      .ok (msg, packet) ⟨[], []⟩ := by
  obtain ⟨k, packet, made, refused⟩ := clock_start_refused bob
    { remotePub := some bob.point } msg.encode 3 encAuthMsgLen rfl rfl (by decide) (by decide)
  obtain ⟨long, short⟩ := auth_encode_length msg plain
  have room : encAuthMsgLen ≤ msg.encode.length + 197 := by
    change 382 ≤ _
    omega
  have read := read_sealed clock_lawful rfl made refused (auth_carried fresh plain version sigSize)
    (by decide) room short [] []
  rw [List.append_nil] at read
  exact ⟨packet, read⟩

/-- The message is read from a packet, and the node at Bob's key panics on it. -/
def CrashesBob (msg : AuthMsgV4) : Prop :=
  (∃ packet, readHandshakeMsg authFormat encAuthMsgLen bob ⟨packet, []⟩ =
    .ok (msg, packet) ⟨[], []⟩) ∧
  ({} : EncHandshake clock).handleAuthMsg msg bob (drawing 3) = .error (.crypto .panicked)

/-- A signature of 141 bytes in a field of 140, and one without a key. -/
theorem strangers_crash_handshake :
    CrashesBob (forged [] 141) ∧ CrashesBob (forged (shortSignature []) 10) := by
  constructor
  · refine ⟨clock_delivers _ rfl rfl (by decide) (by decide), ?_⟩
    rw [handle_auth_msg_panics_iff clock_bounded]
    intro both
    exact absurd both.1 (by decide)
  · refine ⟨clock_delivers _ rfl rfl (by decide) (by decide), ?_⟩
    rw [handle_auth_msg_panics_iff clock_bounded]
    intro both
    exact (both.2 [] 1 1 (by decide +kernel)).1 rfl

end Messages

section Lengths

variable {α : Type} {format : Format α} {plainSize : Nat} {prv : PrivateKey curve}
  {start : List UInt8}

/-- What is done with a packet of the new form once all of it is there. -/
def openEIP8 (format : Format α) (prv : PrivateKey curve) (packet : List UInt8) :
    Except HandshakeError (α × List UInt8) :=
  withCrypto (decrypt prv (packet.drop 2)) fun dec =>
    match decode format.typ (decodeStruct format.typ format.fields) (newStream dec 0) with
    | .error err _ => .error (.rlp err)
    | .ok msg _ => .ok (msg, packet)

def announced (start : List UInt8) : Nat := ofBytes (start.take 2)

def further (plainSize size : Nat) : Nat :=
  (UInt16.ofNat size - 16 - UInt16.ofNat plainSize + 2).toNat

def underflow (plainSize : Nat) : HandshakeError :=
  .text ("size underflow, need at least " ++ toString plainSize ++ " bytes")

/-- With the given first bytes the reader waits for `total` bytes in all, and works on
these alone. -/
structure AsksFor (format : Format α) (plainSize : Nat) (prv : PrivateKey curve)
    (start : List UInt8) (total : Nat) : Prop where
  short : ∀ rest output, (start ++ rest).length < total →
    ∃ err, readHandshakeMsg format plainSize prv ⟨start ++ rest, output⟩ =
      .error err ⟨[], output⟩ ∧ (err = .eof ∨ err = .unexpectedEOF)
  enough : ∀ rest output, total ≤ (start ++ rest).length →
    readHandshakeMsg format plainSize prv ⟨start ++ rest, output⟩ =
      pureStep (openEIP8 format prv ((start ++ rest).take total))
        ⟨(start ++ rest).drop total, output⟩

/-- The size is rejected, or it is what the reader goes by: sixteen bytes less, and the
two bytes of the size itself. -/
def LengthsSound (format : Format α) (plainSize : Nat) (prv : PrivateKey curve)
    (start : List UInt8) : Prop :=
  (∀ rest output, readHandshakeMsg format plainSize prv ⟨start ++ rest, output⟩ =
    .error (underflow plainSize) ⟨rest, output⟩) ∨
  ∃ total : Nat, (total : Int) = announced start - 16 + 2 ∧
    AsksFor format plainSize prv start total ∧ total ≤ announced start + 2 ∧
    ∀ packet : List UInt8, packet.length = total →
      ((packet.drop 2).length : Int) = announced start - 16

theorem announced_small (start : List UInt8) : announced start < 65536 := by
  have bound := of_bytes_lt (start.take 2)
  have width : 256 ^ (start.take 2).length ≤ 256 ^ 2 :=
    Nat.pow_le_pow_right (by decide) (List.length_take_le _ _)
  exact Nat.lt_of_lt_of_le bound width

theorem size_compare {size : Nat} (small : size < 65536) (plain : plainSize < 65536) :
    UInt16.ofNat size < UInt16.ofNat plainSize ↔ size < plainSize := by
  rw [UInt16.lt_iff_toNat_lt, UInt16.toNat_ofNat', UInt16.toNat_ofNat', Nat.mod_eq_of_lt small,
    Nat.mod_eq_of_lt plain]

theorem further_eq {size : Nat} (small : size < 65536) (large : plainSize ≤ size) :
    further plainSize size =
      if plainSize + 14 ≤ size then size - 14 - plainSize else size + 65522 - plainSize := by
  have sixteen : (16 : UInt16).toNat = 16 := rfl
  have two : (2 : UInt16).toNat = 2 := rfl
  rw [further, UInt16.toNat_add, UInt16.toNat_sub, UInt16.toNat_sub, UInt16.toNat_ofNat',
    UInt16.toNat_ofNat', sixteen, two]
  split_ifs <;> omega

theorem read_eip8_rejects (plain : plainSize < 65536) (below : announced start < plainSize)
    (rest output : List UInt8) :
    readEIP8 format plainSize prv start ⟨rest, output⟩ =
      .error (underflow plainSize) ⟨rest, output⟩ := by
  have less := (size_compare (announced_small start) plain).mpr below
  rw [readEIP8]
  exact congrFun (if_pos less) _

theorem read_eip8_accepts (plain : plainSize < 65536) (above : plainSize ≤ announced start)
    (rest output : List UInt8) :
    readEIP8 format plainSize prv start ⟨rest, output⟩ =
      andThen (readFullConn (further plainSize (announced start)))
        (fun more => pureStep (openEIP8 format prv (start ++ more))) ⟨rest, output⟩ := by
  have less := (size_compare (announced_small start) plain).not.mpr (Nat.not_lt.mpr above)
  rw [readEIP8]
  exact congrFun (if_neg less) _

theorem read_full_conn_short {n : Nat} {rest : List UInt8} (less : rest.length < n)
    (output : List UInt8) :
    ∃ err, readFullConn n ⟨rest, output⟩ = .error err ⟨[], output⟩ ∧
      (err = .eof ∨ err = .unexpectedEOF) := by
  rw [readFullConn, takeFull, if_pos less]
  refine ⟨_, rfl, ?_⟩
  split_ifs
  · exact .inl rfl
  · exact .inr rfl

/-- An accepted size makes the reader wait for the start and the further bytes. -/
theorem asks_for_further (format : Format α) (length : start.length = plainSize) (large : 65 ≤ plainSize)
    (plain : plainSize < 65536) {err : CryptoError} (refused : decrypt prv start = .error err)
    (above : plainSize ≤ announced start) :
    AsksFor format plainSize prv start (plainSize + further plainSize (announced start)) := by
  have read : ∀ rest output, readHandshakeMsg format plainSize prv ⟨start ++ rest, output⟩ =
      andThen (readFullConn (further plainSize (announced start)))
        (fun more => pureStep (openEIP8 format prv (start ++ more))) ⟨rest, output⟩ := by
    intro rest output
    rw [read_handshake_eip8 format length large refused, read_eip8_accepts plain above]
  constructor
  · intro rest output less
    rw [List.length_append, length] at less
    obtain ⟨err, short, eof⟩ := read_full_conn_short
      (show rest.length < further plainSize (announced start) by omega) output
    exact ⟨err, by rw [read, and_then_error short], eof⟩
  · intro rest output enough
    rw [List.length_append, length] at enough
    have taken : (rest.take (further plainSize (announced start))).length =
        further plainSize (announced start) := by
      rw [List.length_take]
      omega
    have whole : rest = rest.take (further plainSize (announced start)) ++
        rest.drop (further plainSize (announced start)) := (List.take_append_drop _ _).symm
    rw [read, and_then_ok (read_full_conn whole taken), ← length, List.take_length_add_append,
      List.drop_length_add_append]

theorem open_eip8_errors (packet : List UInt8) {err : HandshakeError}
    (failed : openEIP8 format prv packet = .error err) : err ≠ .eof ∧ err ≠ .unexpectedEOF := by
  unfold openEIP8 at failed
  cases opened : decrypt prv (packet.drop 2) with
  | error cause =>
      rw [opened] at failed
      obtain rfl := Except.error.inj failed
      simp
  | ok dec =>
      rw [with_crypto_ok opened] at failed
      cases decoded : decode format.typ (decodeStruct format.typ format.fields)
          (newStream dec 0) with
      | error cause s =>
          rw [decoded] at failed
          obtain rfl := Except.error.inj failed
          simp
      | ok msg s =>
          rw [decoded] at failed
          cases failed

theorem asks_for_unique {total other : Nat} (asks : AsksFor format plainSize prv start total)
    (again : AsksFor format plainSize prv start other) (less : total < other)
    (reached : start.length < other) : False := by
  -- one byte less than the larger number is too few for it, but enough for the smaller one
  obtain ⟨missing, size⟩ : ∃ missing, other = start.length + missing + 1 :=
    ⟨other - start.length - 1, by omega⟩
  have length : (start ++ List.replicate missing (0 : UInt8)).length = start.length + missing := by
    rw [List.length_append, List.length_replicate]
  obtain ⟨err, failed, eof⟩ := again.short (List.replicate missing 0) [] (by omega)
  have worked := asks.enough (List.replicate missing 0) [] (by omega)
  rw [failed] at worked
  cases opened : openEIP8 format prv ((start ++ List.replicate missing 0).take total) with
  | ok value =>
      rw [opened] at worked
      cases worked
  | error cause =>
      rw [opened] at worked
      obtain ⟨rfl, _⟩ := EStateM.Result.error.inj worked
      obtain ⟨notEof, notShort⟩ := open_eip8_errors _ opened
      exact eof.elim notEof notShort

theorem caller_bounds (caller : plainSize = encAuthMsgLen ∨ plainSize = encAuthRespLen) :
    65 ≤ plainSize ∧ plainSize < 65000 := by
  rcases caller with rfl | rfl <;> decide

/-- Between the smallest size and thirteen more, the difference wraps around and the
reader waits for 65522 bytes behind the announced ones. -/
theorem window_asks_for (format : Format α)
    (caller : plainSize = encAuthMsgLen ∨ plainSize = encAuthRespLen)
    (length : start.length = plainSize) {err : CryptoError}
    (refused : decrypt prv start = .error err) (above : plainSize ≤ announced start)
    (near : announced start < plainSize + 14) :
    AsksFor format plainSize prv start (announced start + 65522) := by
  obtain ⟨large, plain⟩ := caller_bounds caller
  have asks := asks_for_further format length large (by omega) refused above
  rw [further_eq (announced_small start) above, if_neg (by omega)] at asks
  rwa [show plainSize + (announced start + 65522 - plainSize) = announced start + 65522 by omega]
    at asks

/-- A start that is no packet of the old form is read by its size, unless that is
among the fourteen smallest ones that are not rejected. -/
theorem handshake_lengths_iff (format : Format α) (prv : PrivateKey curve)
    (caller : plainSize = encAuthMsgLen ∨ plainSize = encAuthRespLen)
    (length : start.length = plainSize) (refused : ∃ err, decrypt prv start = .error err) :
    LengthsSound format plainSize prv start ↔
      announced start < plainSize ∨ plainSize + 14 ≤ announced start := by
  obtain ⟨large, plain⟩ := caller_bounds caller
  obtain ⟨err, refused⟩ := refused
  rcases Nat.lt_or_ge (announced start) plainSize with below | above
  · refine iff_of_true (.inl fun rest output => ?_) (.inl below)
    rw [read_handshake_eip8 format length large refused, read_eip8_rejects (by omega) below]
  rcases Nat.lt_or_ge (announced start) (plainSize + 14) with near | far
  · have asks : AsksFor format plainSize prv start (announced start + 65522) :=
      window_asks_for format caller length refused above near
    refine iff_of_false ?_ (by omega)
    rintro (rejects | ⟨total, value, again, _⟩)
    · obtain ⟨err, failed, eof⟩ := asks.short [] [] (by rw [List.append_nil]; omega)
      rw [rejects] at failed
      obtain ⟨rfl, _⟩ := EStateM.Result.error.inj failed
      exact eof.elim (by simp [underflow]) (by simp [underflow])
    · exact asks_for_unique again asks (by omega) (by omega)
  · have asks := asks_for_further format length large (by omega) refused above
    rw [further_eq (announced_small start) above, if_pos far] at asks
    refine iff_of_true (.inr ⟨_, by omega, asks, by omega, ?_⟩) (.inr far)
    intro packet size
    rw [List.length_drop, size]
    omega

def bareStart (size : Nat) (mark : UInt8) : List UInt8 :=
  (toBytes 2 size ++ List.replicate 63 0) ++ ([0, mark] ++ List.replicate 315 0)

theorem bare_start_length (size : Nat) (mark : UInt8) :
    (bareStart size mark).length = encAuthMsgLen := by
  simp only [bareStart, List.length_append, to_bytes_length, List.length_replicate,
    List.length_cons, List.length_nil]
  rfl

theorem announced_bare_start {size : Nat} (small : size < 65536) (mark : UInt8) :
    announced (bareStart size mark) = size := by
  rw [announced, bareStart, List.append_assoc, List.take_left' (to_bytes_length _ _),
    of_bytes_to_bytes small]

/-- Of two starts that differ where the digest stands, one is no packet of the old
form. -/
theorem bare_start_refused (prv : PrivateKey curve) (size : Nat) :
    ∃ mark, ∃ err, decrypt prv (bareStart size mark) = .error err := by
  have front : (toBytes 2 size ++ List.replicate 63 (0 : UInt8)).length = 65 := by simp
  have back : 30 ≤ (List.replicate 315 (0 : UInt8)).length := by
    rw [List.length_replicate]
    decide
  have cut : ∀ mark : UInt8, (bareStart size mark).take encAuthMsgLen = bareStart size mark := by
    intro mark
    rw [← bare_start_length size mark, List.take_length]
  have differ : ([0, 0] : List UInt8) ≠ [0, 1] := by decide
  rcases one_digest_refused prv front rfl rfl back (show 97 ≤ encAuthMsgLen by decide) differ
    with refused | refused
  · exact ⟨0, by rw [← cut]; exact refused⟩
  · exact ⟨1, by rw [← cut]; exact refused⟩

theorem handshake_lengths_read :
    ∃ mark, (∃ err, decrypt bob (bareStart 600 mark) = .error err) ∧
      LengthsSound authFormat encAuthMsgLen bob (bareStart 600 mark) := by
  obtain ⟨mark, refused⟩ := bare_start_refused bob 600
  refine ⟨mark, refused, ?_⟩
  rw [handshake_lengths_iff authFormat bob (.inl rfl) (bare_start_length _ _) refused,
    announced_bare_start (by decide)]
  exact .inr (by decide)

/-- The smallest size that is accepted makes the reader wait for 65904 bytes. -/
theorem smallest_size_wraps :
    ∃ mark, (∃ err, decrypt bob (bareStart 382 mark) = .error err) ∧
      announced (bareStart 382 mark) = 382 ∧
      AsksFor authFormat encAuthMsgLen bob (bareStart 382 mark) 65904 := by
  obtain ⟨mark, err, refused⟩ := bare_start_refused bob 382
  have size : announced (bareStart 382 mark) = 382 := announced_bare_start (by decide) mark
  have asks := window_asks_for authFormat (.inl rfl) (bare_start_length 382 mark)
    refused (by rw [size]; decide) (by rw [size]; decide)
  rw [size] at asks
  exact ⟨mark, ⟨err, refused⟩, size, asks⟩

end Lengths

end PbftBlock.HostileHandshakes
