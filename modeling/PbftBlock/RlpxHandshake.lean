import PbftBlock.NodeKeys
import PbftBlock.RlpxFrames

/-!
# The encryption handshake

Two packets are exchanged, each an RLP list with zeros behind it, encrypted to the
other side's key. The length in front is the one of an older cipher, whose texts
were sixteen bytes longer; the reader takes these off again. Both sides hash the
packets as they were on the wire into their MAC states.

What a side draws at random is an argument.
-/

namespace PbftBlock.RlpxHandshake

open PbftBlock.Library.BigEndian PbftBlock.Library.FallibleMethods
open PbftBlock.NodeKeys PbftBlock.RlpEncoding PbftBlock.RlpStream PbftBlock.Sm2 PbftBlock.Sm3

set_option autoImplicit false

def sskLen : Nat := 16
def sigLen : Nat := 140
def pubLen : Nat := 64
def shaLen : Nat := 32
def authMsgLen : Nat := sigLen + shaLen + pubLen + shaLen + 1
def authRespLen : Nat := pubLen + shaLen + 1
def eciesOverhead : Nat := 65 + 16 + 32
def encAuthMsgLen : Nat := authMsgLen + eciesOverhead
def encAuthRespLen : Nat := authRespLen + eciesOverhead

structure AuthMsgV4 where
  gotPlain : Bool := false
  signature : Bytes sigLen
  initiatorPubkey : Bytes pubLen
  nonce : Bytes shaLen
  version : Nat := 0
  sigSize : Nat := 0
  rest : List (List UInt8) := []
deriving DecidableEq

structure AuthRespV4 where
  randomPubkey : Bytes pubLen
  nonce : Bytes shaLen
  version : Nat := 0
  rest : List (List UInt8) := []
deriving DecidableEq

inductive HandshakeError where
  | eof
  | unexpectedEOF
  | text (msg : String)
  | rlp (err : RlpError)
  | crypto (err : CryptoError)
  /-- The numbers given for `Encrypt` do not suffice, and its loop goes on. -/
  | drawing
deriving DecidableEq

structure Conn where
  input : List UInt8
  output : List UInt8
deriving DecidableEq

abbrev HandshakeM (α : Type) := Fallible HandshakeError Conn α

variable {curve : Curve}

/-- What one side draws: `Sign` and `Encrypt` are given their randomness. -/
structure Random (curve : Curve) where
  nonce : Bytes shaLen
  ephemeral : PrivateKey curve
  sign : PrivateKey curve → List UInt8 → Nat × Nat
  pad : Fin 200
  ks : List Nat

structure EncHandshake (curve : Curve) where
  initiator : Bool := false
  remoteID : NodeID := copyBytes 64 []
  remotePub : PublicKey := none
  initNonce : List UInt8 := []
  respNonce : List UInt8 := []
  randomPrivKey : Option (PrivateKey curve) := none
  remoteRandomPub : PublicKey := none

structure Secrets where
  remoteID : NodeID
  aes : List UInt8
  mac : List UInt8
  egressMAC : SM3
  ingressMAC : SM3
deriving DecidableEq

-- both arguments have 32 bytes wherever it is called
def xor (one other : List UInt8) : List UInt8 := List.zipWith (· ^^^ ·) one other

def pureStep {α : Type} (result : Except HandshakeError α) : HandshakeM α := fun conn =>
  match result with
  | .error err => .error err conn
  | .ok value => .ok value conn

def withCrypto {α β : Type} (result : Except CryptoError α)
    (next : α → Except HandshakeError β) : Except HandshakeError β :=
  match result with
  | .error err => .error (.crypto err)
  | .ok value => next value

def writeConn (bytes : List UInt8) : HandshakeM Unit := fun conn =>
  .ok () { conn with output := conn.output ++ bytes }

def readFullConn : Nat → HandshakeM (List UInt8) :=
  takeFull Conn.input (fun rest conn => { conn with input := rest }) .eof .unexpectedEOF

def EncHandshake.staticSharedSecret (h : EncHandshake curve) (prv : PrivateKey curve) :
    Except CryptoError (List UInt8) := generateShared prv h.remotePub sskLen sskLen

def EncHandshake.secrets (h : EncHandshake curve) (auth authResp : List UInt8) :
    Except HandshakeError Secrets :=
  match h.randomPrivKey with
  | none => .error (.crypto .panicked)
  | some randomPrivKey =>
      withCrypto (generateShared randomPrivKey h.remoteRandomPub sskLen sskLen) fun ecdheSecret =>
        let sharedSecret := keccak256 [ecdheSecret, keccak256 [h.respNonce, h.initNonce]]
        let aesSecret := keccak256 [ecdheSecret, sharedSecret]
        let mac := keccak256 [ecdheSecret, aesSecret]
        let mac1 := write (write new (xor mac h.respNonce)) auth
        let mac2 := write (write new (xor mac h.initNonce)) authResp
        .ok {
          remoteID := h.remoteID
          aes := aesSecret
          mac := mac
          egressMAC := if h.initiator then mac1 else mac2
          ingressMAC := if h.initiator then mac2 else mac1 }

def importPublicKey (curve : Curve) (pubKey : List UInt8) : Except HandshakeError Point :=
  if pubKey.length ≠ 64 ∧ pubKey.length ≠ 65 then
    .error (.text ("invalid public key length " ++ toString pubKey.length ++ " (expect 64/65)"))
  else
    match unmarshal curve (if pubKey.length = 64 then 0x04 :: pubKey else pubKey) with
    | none => .error (.text "invalid public key")
    | some point => .ok point

def exportPubkey (point : Point) : List UInt8 := (fromECDSAPub (some point)).drop 1

def EncHandshake.makeAuthMsg (h : EncHandshake curve) (prv : PrivateKey curve)
    (drawn : Random curve) : Except HandshakeError (AuthMsgV4 × EncHandshake curve) :=
  let h := { h with
    remotePub := NodeID.pubkey h.remoteID
    initNonce := drawn.nonce.1
    randomPrivKey := some drawn.ephemeral }
  withCrypto (h.staticSharedSecret prv) fun token =>
    let signed := xor token h.initNonce
    let signature := sign drawn.ephemeral (drawn.sign drawn.ephemeral signed)
    .ok ({
      signature := copyBytes sigLen signature
      initiatorPubkey := copyBytes pubLen (exportPubkey prv.point)
      nonce := copyBytes shaLen h.initNonce
      version := 4
      sigSize := signature.length }, h)

def EncHandshake.handleAuthResp (h : EncHandshake curve) (msg : AuthRespV4) :
    Except HandshakeError (EncHandshake curve) :=
  match importPublicKey curve msg.randomPubkey.1 with
  | .error err => .error err
  | .ok point => .ok { h with respNonce := msg.nonce.1, remoteRandomPub := some point }

/-- The signature in its field, by the size the message gives. -/
def AuthMsgV4.sig (msg : AuthMsgV4) : Except CryptoError (List UInt8) :=
  if sigLen < msg.sigSize then .error .panicked else .ok (msg.signature.1.take msg.sigSize)

def EncHandshake.handleAuthMsg (h : EncHandshake curve) (msg : AuthMsgV4)
    (prv : PrivateKey curve) (drawn : Random curve) : Except HandshakeError (EncHandshake curve) :=
  let h := { h with
    initNonce := msg.nonce.1
    remoteID := msg.initiatorPubkey
    remotePub := NodeID.pubkey msg.initiatorPubkey
    randomPrivKey := some (h.randomPrivKey.getD drawn.ephemeral) }
  withCrypto (h.staticSharedSecret prv) fun token =>
    let signedMsg := xor token h.initNonce
    withCrypto msg.sig fun sig =>
    withCrypto (ecrecover curve signedMsg sig) fun remoteRandomPub =>
    match importPublicKey curve remoteRandomPub with
    | .error err => .error err
    | .ok point => .ok { h with remoteRandomPub := some point }

def EncHandshake.makeAuthResp (h : EncHandshake curve) (drawn : Random curve) :
    Except HandshakeError (AuthRespV4 × EncHandshake curve) :=
  match h.randomPrivKey with
  | none => .error (.crypto .panicked)
  | some randomPrivKey =>
      .ok ({
        nonce := copyBytes shaLen drawn.nonce.1
        randomPubkey := copyBytes pubLen (exportPubkey randomPrivKey.point)
        version := 4 }, { h with respNonce := drawn.nonce.1 })

def EncHandshake.encryptRemote (h : EncHandshake curve) (buf : List UInt8) (drawn : Random curve) :
    Except HandshakeError (List UInt8) :=
  match h.remotePub with
  | none => .error (.crypto .panicked)
  | some pub =>
      match encrypt curve pub buf drawn.ks with
      | none => .error .drawing
      | some enc => .ok enc

def AuthRespV4.sealPlain (msg : AuthRespV4) (h : EncHandshake curve) (drawn : Random curve) :
    Except HandshakeError (List UInt8) :=
  h.encryptRemote (msg.randomPubkey.1 ++ msg.nonce.1 ++ [0]) drawn

def AuthMsgV4.decodePlain (input : List UInt8) : AuthMsgV4 where
  gotPlain := true
  signature := copyBytes sigLen input
  -- the hash of the ephemeral key is skipped
  initiatorPubkey := copyBytes pubLen (input.drop (sigLen + shaLen))
  nonce := copyBytes shaLen (input.drop (sigLen + shaLen + pubLen))
  version := 4

def AuthRespV4.decodePlain (input : List UInt8) : AuthRespV4 where
  randomPubkey := copyBytes pubLen input
  nonce := copyBytes shaLen (input.drop pubLen)
  version := 4

/-- The raw values of a tail are written as they are. -/
def rawFields (rest : List (List UInt8)) : List (EncBuf → EncBuf) :=
  rest.map fun raw w => w.append raw

def AuthMsgV4.encode (msg : AuthMsgV4) : List UInt8 :=
  RlpEncoding.encode (writeStruct ([encodeString msg.signature.1,
    encodeString msg.initiatorPubkey.1, encodeString msg.nonce.1, writeUint msg.version,
    writeUint msg.sigSize] ++ rawFields msg.rest))

def AuthRespV4.encode (msg : AuthRespV4) : List UInt8 :=
  RlpEncoding.encode (writeStruct ([encodeString msg.randomPubkey.1, encodeString msg.nonce.1,
    writeUint msg.version] ++ rawFields msg.rest))

def AuthMsgV4.fields : StreamM AuthMsgV4 :=
  let typ := "p2p.authMsgV4"
  andThen (decodeField typ "Signature" (decodeByteArray sigLen "[140]uint8")) fun signature =>
  andThen (decodeField typ "InitiatorPubkey" (decodeByteArray pubLen "[64]uint8")) fun pubkey =>
  andThen (decodeField typ "Nonce" (decodeByteArray shaLen "[32]uint8")) fun nonce =>
  andThen (decodeField typ "Version" (decodeUint 64 "uint")) fun version =>
  andThen (decodeField typ "SigSize" (decodeUint 64 "uint")) fun sigSize =>
  andThen (decodeField typ "Rest" (decodeTail Stream.raw)) fun rest => .ok {
    signature := copyBytes sigLen signature
    initiatorPubkey := copyBytes pubLen pubkey
    nonce := copyBytes shaLen nonce
    version := version
    sigSize := sigSize
    rest := rest }

def AuthRespV4.fields : StreamM AuthRespV4 :=
  let typ := "p2p.authRespV4"
  andThen (decodeField typ "RandomPubkey" (decodeByteArray pubLen "[64]uint8")) fun pubkey =>
  andThen (decodeField typ "Nonce" (decodeByteArray shaLen "[32]uint8")) fun nonce =>
  andThen (decodeField typ "Version" (decodeUint 64 "uint")) fun version =>
  andThen (decodeField typ "Rest" (decodeTail Stream.raw)) fun rest => .ok {
    randomPubkey := copyBytes pubLen pubkey
    nonce := copyBytes shaLen nonce
    version := version
    rest := rest }

/-- The plain text of a packet: the message and between 100 and 299 zeros. -/
def padded (encoded : List UInt8) (drawn : Random curve) : List UInt8 :=
  encoded ++ List.replicate (drawn.pad.val + 100) 0

def EncHandshake.sealEIP8 (h : EncHandshake curve) (encoded : List UInt8) (drawn : Random curve) :
    Except HandshakeError (List UInt8) :=
  let buf := padded encoded drawn
  match h.encryptRemote buf drawn with
  | .error err => .error err
  | .ok enc => .ok (toBytes 2 (buf.length + eciesOverhead) ++ enc)

/-- How a message is decoded from the old and from the new packets. -/
structure Format (α : Type) where
  decodePlain : List UInt8 → α
  typ : String
  fields : StreamM α

def authFormat : Format AuthMsgV4 := ⟨AuthMsgV4.decodePlain, "p2p.authMsgV4", AuthMsgV4.fields⟩

def respFormat : Format AuthRespV4 := ⟨AuthRespV4.decodePlain, "p2p.authRespV4", AuthRespV4.fields⟩

/-- The packet of the new form, of which `buf` has been read. -/
def readEIP8 {α : Type} (format : Format α) (plainSize : Nat) (prv : PrivateKey curve)
    (buf : List UInt8) : HandshakeM (α × List UInt8) :=
  let size := UInt16.ofNat (ofBytes (buf.take 2))
  if size < UInt16.ofNat plainSize then
    pureStep (.error (.text
      ("size underflow, need at least " ++ toString plainSize ++ " bytes")))
  else
    andThen (readFullConn (size - 16 - UInt16.ofNat plainSize + 2).toNat) fun more =>
    pureStep (withCrypto (decrypt prv ((buf ++ more).drop 2)) fun dec =>
      match decode format.typ (decodeStruct format.typ format.fields) (newStream dec 0) with
      | .error err _ => .error (.rlp err)
      | .ok msg _ => .ok (msg, buf ++ more))

def readHandshakeMsg {α : Type} (format : Format α) (plainSize : Nat) (prv : PrivateKey curve) :
    HandshakeM (α × List UInt8) :=
  andThen (readFullConn plainSize) fun buf =>
    match decrypt prv buf with
    | .ok dec => pureStep (.ok (format.decodePlain dec, buf))
    | .error .panicked => pureStep (.error (.crypto .panicked))
    | .error _ => readEIP8 format plainSize prv buf

def initiatorEncHandshake (prv : PrivateKey curve) (remoteID : NodeID) (drawn : Random curve) :
    HandshakeM Secrets :=
  let h : EncHandshake curve := { initiator := true, remoteID := remoteID }
  andThen (pureStep (h.makeAuthMsg prv drawn)) fun (authMsg, h) =>
  andThen (pureStep (h.sealEIP8 authMsg.encode drawn)) fun authPacket =>
  andThen (writeConn authPacket) fun _ =>
  andThen (readHandshakeMsg respFormat encAuthRespLen prv) fun (authRespMsg, authRespPacket) =>
  andThen (pureStep (h.handleAuthResp authRespMsg)) fun h =>
  pureStep (h.secrets authPacket authRespPacket)

def receiverEncHandshake (prv : PrivateKey curve) (drawn : Random curve) : HandshakeM Secrets :=
  andThen (readHandshakeMsg authFormat encAuthMsgLen prv) fun (authMsg, authPacket) =>
  let h : EncHandshake curve := {}
  andThen (pureStep (h.handleAuthMsg authMsg prv drawn)) fun h =>
  andThen (pureStep (h.makeAuthResp drawn)) fun (authRespMsg, h) =>
  andThen (pureStep (if authMsg.gotPlain then authRespMsg.sealPlain h drawn
    else h.sealEIP8 authRespMsg.encode drawn)) fun authRespPacket =>
  andThen (writeConn authRespPacket) fun _ =>
  pureStep (h.secrets authPacket authRespPacket)

section Messages

/-- The fields of a message without further ones, as they stand in the list. -/
def authBody (msg : AuthMsgV4) : List UInt8 :=
  stringBytes msg.signature.1 ++ (stringBytes msg.initiatorPubkey.1 ++
    (stringBytes msg.nonce.1 ++ (uintBytes msg.version ++ (uintBytes msg.sigSize ++ []))))

def respBody (msg : AuthRespV4) : List UInt8 :=
  stringBytes msg.randomPubkey.1 ++ (stringBytes msg.nonce.1 ++ (uintBytes msg.version ++ []))

theorem auth_encode_eq {msg : AuthMsgV4} (plain : msg.rest = []) :
    msg.encode = header .list (authBody msg).length ++ authBody msg := by
  have flat := encode_flat_struct [stringBytes msg.signature.1,
    stringBytes msg.initiatorPubkey.1, stringBytes msg.nonce.1, uintBytes msg.version,
    uintBytes msg.sigSize]
  rw [AuthMsgV4.encode, encode_eq, plain]
  exact flat

theorem resp_encode_eq {msg : AuthRespV4} (plain : msg.rest = []) :
    msg.encode = header .list (respBody msg).length ++ respBody msg := by
  have flat := encode_flat_struct [stringBytes msg.randomPubkey.1, stringBytes msg.nonce.1,
    uintBytes msg.version]
  rw [AuthRespV4.encode, encode_eq, plain]
  exact flat

theorem auth_body_length (msg : AuthMsgV4) :
    204 ≤ (authBody msg).length ∧ (authBody msg).length ≤ 300 := by
  have signature := msg.signature.2
  have pubkey := msg.initiatorPubkey.2
  have nonce := msg.nonce.2
  unfold sigLen at signature
  unfold pubLen at pubkey
  unfold shaLen at nonce
  have first := string_bytes_length (b := msg.signature.1) (by omega)
  have second := string_bytes_length (b := msg.initiatorPubkey.1) (by omega)
  have third := string_bytes_length (b := msg.nonce.1) (by omega)
  have fourth := uint_bytes_length_le msg.version
  have fifth := uint_bytes_length_le msg.sigSize
  simp only [authBody, List.length_append, List.length_nil]
  omega

theorem resp_body_length (msg : AuthRespV4) :
    64 ≤ (respBody msg).length ∧ (respBody msg).length ≤ 300 := by
  have pubkey := msg.randomPubkey.2
  have nonce := msg.nonce.2
  unfold pubLen at pubkey
  unfold shaLen at nonce
  have first := string_bytes_length (b := msg.randomPubkey.1) (by omega)
  have second := string_bytes_length (b := msg.nonce.1) (by omega)
  have third := uint_bytes_length_le msg.version
  simp only [respBody, List.length_append, List.length_nil]
  omega

theorem array_ne_nil {n : Nat} (several : 1 < n) (array : Bytes n) : stringBytes array.1 ≠ [] :=
  string_bytes_ne_nil (by rw [array.2]; exact several)

theorem array_read {n : Nat} (several : 1 < n) (small : n < 2 ^ 64) (array : Bytes n)
    (typ : String) : Reads (decodeByteArray n typ) (stringBytes array.1) array.1 := by
  have size := array.2
  have read := reads_byte_array (b := array.1) (by omega) (by omega) typ
  rwa [size] at read

theorem auth_fields_read {msg : AuthMsgV4} (fresh : msg.gotPlain = false) (plain : msg.rest = [])
    (version : msg.version < 2 ^ 64) (sigSize : msg.sigSize < 2 ^ 64) :
    ReadsLast AuthMsgV4.fields (authBody msg) msg := by
  refine reads_field _ _ (array_ne_nil (by decide) _) (array_read (by decide) (by decide) _ _) ?_
  refine reads_field _ _ (array_ne_nil (by decide) _) (array_read (by decide) (by decide) _ _) ?_
  refine reads_field _ _ (array_ne_nil (by decide) _) (array_read (by decide) (by decide) _ _) ?_
  refine reads_field _ _ (uint_bytes_ne_nil _) (reads_uint version _) ?_
  refine reads_field _ _ (uint_bytes_ne_nil _) (reads_uint sigSize _) ?_
  refine reads_empty_tail _ _ ?_
  rw [copy_bytes_whole, copy_bytes_whole, copy_bytes_whole, ← plain, ← fresh]

theorem resp_fields_read {msg : AuthRespV4} (plain : msg.rest = [])
    (version : msg.version < 2 ^ 64) : ReadsLast AuthRespV4.fields (respBody msg) msg := by
  refine reads_field _ _ (array_ne_nil (by decide) _) (array_read (by decide) (by decide) _ _) ?_
  refine reads_field _ _ (array_ne_nil (by decide) _) (array_read (by decide) (by decide) _ _) ?_
  refine reads_field _ _ (uint_bytes_ne_nil _) (reads_uint version _) ?_
  refine reads_empty_tail _ _ ?_
  rw [copy_bytes_whole, copy_bytes_whole, ← plain]

/-- The bytes hold the message for the reader, whatever follows them. -/
def Carries {α : Type} (format : Format α) (encoded : List UInt8) (msg : α) : Prop :=
  ∀ more, ∃ s, decode format.typ (decodeStruct format.typ format.fields)
    (newStream (encoded ++ more) 0) = .ok msg s

theorem auth_carried {msg : AuthMsgV4} (fresh : msg.gotPlain = false) (plain : msg.rest = [])
    (version : msg.version < 2 ^ 64) (sigSize : msg.sigSize < 2 ^ 64) :
    Carries authFormat msg.encode msg := by
  intro more
  have size := (auth_body_length msg).2
  rw [auth_encode_eq plain]
  exact decode_struct_written _ (by omega) (auth_fields_read fresh plain version sigSize) more

theorem resp_carried {msg : AuthRespV4} (plain : msg.rest = []) (version : msg.version < 2 ^ 64) :
    Carries respFormat msg.encode msg := by
  intro more
  have size := (resp_body_length msg).2
  rw [resp_encode_eq plain]
  exact decode_struct_written _ (by omega) (resp_fields_read plain version) more

end Messages

section Packets

variable {prv : PrivateKey curve} {h : EncHandshake curve} {drawn : Random curve}
  {encoded packet : List UInt8} {conn : Conn}

theorem pure_step_ok {α : Type} {result : Except HandshakeError α} {value : α}
    (done : result = .ok value) : pureStep result conn = .ok value conn := by
  subst done
  rfl

theorem with_crypto_ok {α β : Type} {result : Except CryptoError α} {value : α}
    {next : α → Except HandshakeError β} (done : result = .ok value) :
    withCrypto result next = next value := by
  subst done
  rfl

theorem read_full_conn {taken rest : List UInt8} {n : Nat} (arrived : conn.input = taken ++ rest)
    (length : taken.length = n) : readFullConn n conn = .ok taken { conn with input := rest } :=
  take_full_ok arrived length

/-- A packet is the announced size and the ciphertext, 97 bytes longer than the
text. -/
theorem sealed_parts (lawful : Lawful curve) (remote : h.remotePub = some prv.point)
    (done : h.sealEIP8 encoded drawn = .ok packet) :
    ∃ enc, packet = toBytes 2 ((padded encoded drawn).length + 113) ++ enc ∧
      enc.length = (padded encoded drawn).length + 97 ∧
      decrypt prv enc = .ok (padded encoded drawn) := by
  have some : padded encoded drawn ≠ [] := by
    intro none
    have size := congrArg List.length none
    simp [padded] at size
  unfold EncHandshake.sealEIP8 EncHandshake.encryptRemote at done
  rw [remote] at done
  dsimp only at done
  cases ran : encrypt curve prv.point (padded encoded drawn) drawn.ks with
  | none =>
      rw [ran] at done
      cases done
  | some enc =>
      rw [ran] at done
      refine ⟨enc, (Except.ok.inj done).symm, encrypt_length (lawful_exchanges lawful) some ran, ?_⟩
      exact decrypt_encrypt (lawful_exchanges lawful) some ran

theorem announced_rest {size plainSize : Nat} (small : size + 113 < 65536)
    (room : plainSize ≤ size + 97) :
    ¬UInt16.ofNat (size + 113) < UInt16.ofNat plainSize ∧
      (UInt16.ofNat (size + 113) - 16 - UInt16.ofNat plainSize + 2).toNat =
        size + 99 - plainSize := by
  have whole : (UInt16.ofNat (size + 113)).toNat = size + 113 := by
    rw [UInt16.toNat_ofNat']
    omega
  have plain : (UInt16.ofNat plainSize).toNat = plainSize := by
    rw [UInt16.toNat_ofNat']
    omega
  have sixteen : (16 : UInt16).toNat = 16 := rfl
  have two : (2 : UInt16).toNat = 2 := rfl
  constructor
  · rw [UInt16.lt_iff_toNat_lt, whole, plain]
    omega
  · rw [UInt16.toNat_add, UInt16.toNat_sub, UInt16.toNat_sub, whole, plain, sixteen, two]
    omega

/-- A start that does not decrypt is read as one of the new form. -/
theorem read_handshake_eip8 {α : Type} (format : Format α) {plainSize : Nat} {start : List UInt8}
    {err : CryptoError} (length : start.length = plainSize) (large : 65 ≤ plainSize)
    (refused : decrypt prv start = .error err) (rest output : List UInt8) :
    readHandshakeMsg format plainSize prv ⟨start ++ rest, output⟩ =
      readEIP8 format plainSize prv start ⟨rest, output⟩ := by
  rw [readHandshakeMsg, and_then_ok (read_full_conn rfl length), refused]
  cases err with
  | panicked => exact absurd refused (decrypt_total (by omega))
  | text msg => rfl
  | asn1 => rfl

theorem read_sealed {α : Type} {format : Format α} {msg : α} {plainSize : Nat}
    (lawful : Lawful curve) (remote : h.remotePub = some prv.point)
    (done : h.sealEIP8 encoded drawn = .ok packet)
    (rejected : ∃ err, decrypt prv (packet.take plainSize) = .error err)
    (carried : Carries format encoded msg) (large : 65 ≤ plainSize)
    (room : plainSize ≤ encoded.length + 197) (small : encoded.length ≤ 400)
    (rest output : List UInt8) :
    readHandshakeMsg format plainSize prv ⟨packet ++ rest, output⟩ =
      .ok (msg, packet) ⟨rest, output⟩ := by
  obtain ⟨enc, parts, encLength, inverse⟩ := sealed_parts lawful remote done
  obtain ⟨err, refused⟩ := rejected
  have pad := drawn.pad.isLt
  have size : (padded encoded drawn).length = encoded.length + (drawn.pad.val + 100) := by
    simp [padded]
  have length : packet.length = (padded encoded drawn).length + 99 := by
    rw [parts, List.length_append, to_bytes_length, encLength]
    omega
  have front : (packet.take plainSize).length = plainSize := by
    rw [List.length_take]
    omega
  have whole : packet.take plainSize ++ packet.drop plainSize = packet :=
    List.take_append_drop _ _
  have announced : ofBytes ((packet.take plainSize).take 2) =
      (padded encoded drawn).length + 113 := by
    rw [List.take_take, Nat.min_eq_left (by omega), parts, List.take_left' (to_bytes_length _ _),
      of_bytes_to_bytes (by omega)]
  have fits : (padded encoded drawn).length + 113 < 65536 := by omega
  have reaches : plainSize ≤ (padded encoded drawn).length + 97 := by omega
  obtain ⟨noUnderflow, remaining⟩ := announced_rest fits reaches
  obtain ⟨s, decoded⟩ := carried (List.replicate (drawn.pad.val + 100) 0)
  have arrived : packet ++ rest = packet.take plainSize ++ (packet.drop plainSize ++ rest) := by
    rw [← List.append_assoc, whole]
  have second : readEIP8 format plainSize prv (packet.take plainSize)
      ⟨packet.drop plainSize ++ rest, output⟩ = .ok (msg, packet) ⟨rest, output⟩ := by
    rw [readEIP8, announced, if_neg noUnderflow, remaining]
    refine Eq.trans (and_then_ok (read_full_conn rfl (by rw [List.length_drop, length]))) ?_
    apply pure_step_ok
    rw [whole, parts, List.drop_left' (to_bytes_length _ _), with_crypto_ok inverse, padded, decoded]
  rw [arrived, read_handshake_eip8 format front large refused]
  exact second

end Packets

section Agreement

variable {initiator receiver : PrivateKey curve} {drawnI drawnR : Random curve}

theorem export_pubkey_eq (point : Point) : exportPubkey point = (pubkeyID point).1 := by
  rw [pubkey_id_bytes]
  rfl

theorem copy_export (point : Point) : copyBytes pubLen (exportPubkey point) = pubkeyID point := rfl

theorem import_marshal (lawful : Lawful curve) (prv : PrivateKey curve) :
    importPublicKey curve (marshal prv.point) = .ok prv.point := by
  have size := marshal_length prv.point
  rw [importPublicKey, if_neg (by omega), if_neg (by omega), unmarshal_key lawful]

theorem import_export (lawful : Lawful curve) (prv : PrivateKey curve) :
    importPublicKey curve (exportPubkey prv.point) = .ok prv.point := by
  have size : (exportPubkey prv.point).length = 64 := by
    rw [export_pubkey_eq]
    exact (pubkeyID prv.point).2
  have whole : 0x04 :: exportPubkey prv.point = marshal prv.point := rfl
  rw [importPublicKey, if_neg (by omega), if_pos size, whole, unmarshal_key lawful]

def token (initiator receiver : PrivateKey curve) : List UInt8 :=
  toBytes 32 (curve.scalarMult receiver.point initiator.d).x

def authSignature (initiator receiver : PrivateKey curve) (drawn : Random curve) : List UInt8 :=
  sign drawn.ephemeral
    (drawn.sign drawn.ephemeral (xor (token initiator receiver) drawn.nonce.1))

def authMsg (initiator receiver : PrivateKey curve) (drawn : Random curve) : AuthMsgV4 where
  signature := copyBytes sigLen (authSignature initiator receiver drawn)
  initiatorPubkey := pubkeyID initiator.point
  nonce := drawn.nonce
  version := 4
  sigSize := (authSignature initiator receiver drawn).length

def respMsg (drawn : Random curve) : AuthRespV4 where
  randomPubkey := pubkeyID drawn.ephemeral.point
  nonce := drawn.nonce
  version := 4

def initiatorState (receiver : PrivateKey curve) (drawn : Random curve) : EncHandshake curve where
  initiator := true
  remoteID := pubkeyID receiver.point
  remotePub := some receiver.point
  initNonce := drawn.nonce.1
  randomPrivKey := some drawn.ephemeral

def receiverState (initiator : PrivateKey curve) (drawnI drawnR : Random curve) :
    EncHandshake curve where
  remoteID := pubkeyID initiator.point
  remotePub := some initiator.point
  initNonce := drawnI.nonce.1
  respNonce := drawnR.nonce.1
  randomPrivKey := some drawnR.ephemeral
  remoteRandomPub := some drawnI.ephemeral.point

theorem pubkey_of_key (lawful : Lawful curve) (prv : PrivateKey curve) :
    NodeID.pubkey (pubkeyID prv.point) = some prv.point :=
  pubkey_of_id lawful (lawful.base prv.d)

theorem make_auth_msg (lawful : Lawful curve) :
    ({ initiator := true, remoteID := pubkeyID receiver.point } : EncHandshake curve).makeAuthMsg
      initiator drawnI =
      .ok (authMsg initiator receiver drawnI, initiatorState receiver drawnI) := by
  rw [EncHandshake.makeAuthMsg, pubkey_of_key lawful]
  refine Eq.trans (with_crypto_ok (generate_shared_base lawful initiator receiver)) ?_
  rw [copy_export, copy_bytes_whole]
  rfl

def Signs (initiator receiver : PrivateKey curve) (drawn : Random curve) : Prop :=
  let hash := xor (token initiator receiver) drawn.nonce.1
  let digits := drawn.sign drawn.ephemeral hash
  Sm2.verify curve (some drawn.ephemeral.point) hash digits.1 digits.2 = .ok true

theorem handle_auth_msg (lawful : Lawful curve) (signs : Signs initiator receiver drawnI) :
    ({} : EncHandshake curve).handleAuthMsg (authMsg initiator receiver drawnI) receiver drawnR =
      .ok { receiverState initiator drawnI drawnR with respNonce := [] } := by
  have shared : generateShared receiver (some initiator.point) 16 16 =
      .ok (token initiator receiver) := by
    rw [generate_shared_symmetric lawful, generate_shared_base lawful]
    rfl
  have fits : (authSignature initiator receiver drawnI).length ≤ sigLen := sign_length lawful signs
  have sig : (authMsg initiator receiver drawnI).sig =
      .ok (authSignature initiator receiver drawnI) := by
    have inside : ¬sigLen < (authMsg initiator receiver drawnI).sigSize := Nat.not_lt.mpr fits
    rw [AuthMsgV4.sig, if_neg inside]
    exact congrArg Except.ok (copy_bytes_take fits)
  have recovered : ecrecover curve (xor (token initiator receiver) drawnI.nonce.1)
      (authSignature initiator receiver drawnI) = .ok (marshal drawnI.ephemeral.point) :=
    ecrecover_sign lawful signs
  have remote : NodeID.pubkey (authMsg initiator receiver drawnI).initiatorPubkey =
      some initiator.point := pubkey_of_key lawful initiator
  rw [EncHandshake.handleAuthMsg, remote]
  refine Eq.trans (with_crypto_ok shared) ?_
  refine Eq.trans (with_crypto_ok sig) (Eq.trans (with_crypto_ok recovered) ?_)
  rw [import_marshal lawful]
  rfl

theorem make_auth_resp :
    ({ receiverState initiator drawnI drawnR with respNonce := [] } :
      EncHandshake curve).makeAuthResp drawnR =
      .ok (respMsg drawnR, receiverState initiator drawnI drawnR) := by
  change Except.ok (_, _) = _
  rw [copy_export, copy_bytes_whole]
  rfl

theorem handle_auth_resp (lawful : Lawful curve) :
    (initiatorState receiver drawnI).handleAuthResp (respMsg drawnR) =
      .ok { initiatorState receiver drawnI with
        respNonce := drawnR.nonce.1
        remoteRandomPub := some drawnR.ephemeral.point } := by
  have key : importPublicKey curve (respMsg drawnR).randomPubkey.1 =
      .ok drawnR.ephemeral.point := by
    have imported := import_export lawful drawnR.ephemeral
    rwa [export_pubkey_eq] at imported
  rw [EncHandshake.handleAuthResp, key]
  rfl

/-- Both ends of a link hold the same keys, and each direction has one MAC state. -/
structure Agreed (left right : Secrets) : Prop where
  aes : left.aes = right.aes
  mac : left.mac = right.mac
  forth : left.egressMAC = right.ingressMAC
  back : left.ingressMAC = right.egressMAC

/-- From the same packets both sides derive the same secrets. -/
theorem secrets_agree (lawful : Lawful curve) (receiver initiator : PrivateKey curve)
    (drawnI drawnR : Random curve) (auth resp : List UInt8) :
    ∃ left right,
      ({ initiatorState receiver drawnI with
        respNonce := drawnR.nonce.1
        remoteRandomPub := some drawnR.ephemeral.point } : EncHandshake curve).secrets auth resp =
          .ok left ∧
      (receiverState initiator drawnI drawnR).secrets auth resp = .ok right ∧
      left.remoteID = pubkeyID receiver.point ∧ right.remoteID = pubkeyID initiator.point ∧
      Agreed left right := by
  have left := generate_shared_base lawful drawnI.ephemeral drawnR.ephemeral
  have right := generate_shared_symmetric lawful drawnR.ephemeral drawnI.ephemeral
  rw [left] at right
  refine ⟨_, _, with_crypto_ok left, with_crypto_ok right, rfl, rfl, ?_⟩
  exact ⟨rfl, rfl, rfl, rfl⟩

def authPacket (initiator receiver : PrivateKey curve) (drawn : Random curve) :
    Except HandshakeError (List UInt8) :=
  (initiatorState receiver drawn).sealEIP8 (authMsg initiator receiver drawn).encode drawn

def respPacket (initiator : PrivateKey curve) (drawnI drawnR : Random curve) :
    Except HandshakeError (List UInt8) :=
  (receiverState initiator drawnI drawnR).sealEIP8 (respMsg drawnR).encode drawnR

/-- Without randomness for `Encrypt` to go on with, nothing is sealed; otherwise a
packet is. -/
theorem seal_total {h : EncHandshake curve} {point : Point} {encoded : List UInt8}
    {drawn : Random curve} (remote : h.remotePub = some point)
    (returns : h.sealEIP8 encoded drawn ≠ .error .drawing) :
    ∃ packet, h.sealEIP8 encoded drawn = .ok packet := by
  unfold EncHandshake.sealEIP8 EncHandshake.encryptRemote at returns ⊢
  rw [remote] at returns ⊢
  dsimp only at returns ⊢
  cases ran : encrypt curve point (padded encoded drawn) drawn.ks with
  | none =>
      rw [ran] at returns
      exact absurd rfl returns
  | some enc => exact ⟨_, rfl⟩

/-- What is assumed of the cryptography in one run: the signature verifies, the
loop of `Encrypt` ends, and the start of a packet does not decrypt. -/
structure Assumed (initiator receiver : PrivateKey curve) (drawnI drawnR : Random curve) :
    Prop where
  signs : Signs initiator receiver drawnI
  authReturns : authPacket initiator receiver drawnI ≠ .error .drawing
  respReturns : respPacket initiator drawnI drawnR ≠ .error .drawing
  authRejected : ∀ auth, authPacket initiator receiver drawnI = .ok auth →
    ∃ err, decrypt receiver (auth.take encAuthMsgLen) = .error err
  respRejected : ∀ resp, respPacket initiator drawnI drawnR = .ok resp →
    ∃ err, decrypt initiator (resp.take encAuthRespLen) = .error err

theorem pure_step_keeps {α : Type} (result : Except HandshakeError α) :
    Keeps Conn.output (pureStep result) := by
  intro conn
  unfold pureStep
  cases result <;> rfl

theorem read_full_conn_keeps (n : Nat) : Keeps Conn.output (readFullConn n) := by
  refine take_full_keeps ?_ n
  intro rest conn
  rfl

/-- Reading writes nothing, however it ends. -/
theorem read_handshake_msg_keeps {α : Type} (format : Format α) (plainSize : Nat)
    (prv : PrivateKey curve) : Keeps Conn.output (readHandshakeMsg format plainSize prv) := by
  refine keeps_and_then (read_full_conn_keeps plainSize) fun buf => ?_
  have second : Keeps Conn.output (readEIP8 format plainSize prv buf) := by
    unfold readEIP8
    dsimp only
    split_ifs
    · exact pure_step_keeps _
    · exact keeps_and_then (read_full_conn_keeps _) fun _ => pure_step_keeps _
  cases decrypt prv buf with
  | ok dec => exact pure_step_keeps _
  | error err =>
      cases err with
      | panicked => exact pure_step_keeps _
      | text msg => exact second
      | asn1 => exact second

theorem initiator_opens (lawful : Lawful curve) {auth : List UInt8}
    (opened : authPacket initiator receiver drawnI = .ok auth) (input : List UInt8) :
    initiatorEncHandshake initiator (pubkeyID receiver.point) drawnI ⟨input, []⟩ =
      andThen (readHandshakeMsg respFormat encAuthRespLen initiator) (fun (msg, resp) =>
        andThen (pureStep ((initiatorState receiver drawnI).handleAuthResp msg)) fun h =>
        pureStep (h.secrets auth resp)) ⟨input, auth⟩ := by
  rw [initiatorEncHandshake]
  refine Eq.trans (and_then_ok (pure_step_ok (make_auth_msg lawful))) ?_
  refine Eq.trans (and_then_ok (pure_step_ok opened)) ?_
  exact and_then_ok rfl

theorem initiator_writes (lawful : Lawful curve) {auth : List UInt8}
    (opened : authPacket initiator receiver drawnI = .ok auth) (input : List UInt8) :
    (stateOf (initiatorEncHandshake initiator (pubkeyID receiver.point) drawnI
      ⟨input, []⟩)).output = auth := by
  rw [initiator_opens lawful opened]
  refine keeps_and_then (read_handshake_msg_keeps _ _ _) ?_ ⟨input, auth⟩
  intro read
  exact keeps_and_then (pure_step_keeps _) fun _ => pure_step_keeps _

theorem auth_encode_length (msg : AuthMsgV4) (plain : msg.rest = []) :
    204 ≤ msg.encode.length ∧ msg.encode.length ≤ 400 := by
  have body := auth_body_length msg
  have front := header_length_le .list (authBody msg).length
  rw [auth_encode_eq plain, List.length_append]
  omega

theorem resp_encode_length (msg : AuthRespV4) (plain : msg.rest = []) :
    64 ≤ msg.encode.length ∧ msg.encode.length ≤ 400 := by
  have body := resp_body_length msg
  have front := header_length_le .list (respBody msg).length
  rw [resp_encode_eq plain, List.length_append]
  omega

theorem receiver_reads (lawful : Lawful curve)
    (assumed : Assumed initiator receiver drawnI drawnR) {auth : List UInt8}
    (opened : authPacket initiator receiver drawnI = .ok auth) (rest : List UInt8) :
    readHandshakeMsg authFormat encAuthMsgLen receiver ⟨auth ++ rest, []⟩ =
      .ok (authMsg initiator receiver drawnI, auth) ⟨rest, []⟩ := by
  have fits : (authSignature initiator receiver drawnI).length ≤ 140 :=
    sign_length lawful assumed.signs
  have sigSize : (authMsg initiator receiver drawnI).sigSize < 2 ^ 64 :=
    Nat.lt_of_le_of_lt fits (by decide)
  obtain ⟨long, short⟩ := auth_encode_length (authMsg initiator receiver drawnI) rfl
  have room : encAuthMsgLen ≤ (authMsg initiator receiver drawnI).encode.length + 197 := by
    change 382 ≤ _
    omega
  have version : (authMsg initiator receiver drawnI).version < 2 ^ 64 := by
    change 4 < 2 ^ 64
    decide
  exact read_sealed lawful rfl opened (assumed.authRejected auth opened)
    (auth_carried rfl rfl version sigSize) (by decide) room short rest []

theorem initiator_reads (lawful : Lawful curve)
    (assumed : Assumed initiator receiver drawnI drawnR) {resp : List UInt8}
    (answered : respPacket initiator drawnI drawnR = .ok resp) (rest output : List UInt8) :
    readHandshakeMsg respFormat encAuthRespLen initiator ⟨resp ++ rest, output⟩ =
      .ok (respMsg drawnR, resp) ⟨rest, output⟩ := by
  obtain ⟨long, short⟩ := resp_encode_length (respMsg drawnR) rfl
  have room : encAuthRespLen ≤ (respMsg drawnR).encode.length + 197 := by
    change 210 ≤ _
    omega
  have version : (respMsg drawnR).version < 2 ^ 64 := by
    change 4 < 2 ^ 64
    decide
  exact read_sealed lawful rfl answered (assumed.respRejected resp answered)
    (resp_carried rfl version) (by decide) room short rest output

theorem receiver_answers (lawful : Lawful curve) (signs : Signs initiator receiver drawnI)
    {auth resp : List UInt8} {secrets : Secrets}
    (answered : respPacket initiator drawnI drawnR = .ok resp)
    (derived : (receiverState initiator drawnI drawnR).secrets auth resp = .ok secrets)
    {conn after : Conn} (read : readHandshakeMsg authFormat encAuthMsgLen receiver conn =
      .ok (authMsg initiator receiver drawnI, auth) after) :
    receiverEncHandshake receiver drawnR conn =
      .ok secrets { after with output := after.output ++ resp } := by
  -- a packet of the new form is answered by one of the new form
  have fresh : ¬(authMsg initiator receiver drawnI).gotPlain = true := Bool.false_ne_true
  rw [receiverEncHandshake, and_then_ok read]
  dsimp only
  rw [and_then_ok (pure_step_ok (handle_auth_msg lawful signs)),
    and_then_ok (pure_step_ok make_auth_resp)]
  dsimp only
  rw [if_neg fresh]
  refine Eq.trans (and_then_ok (pure_step_ok answered)) ?_
  exact (and_then_ok rfl).trans (pure_step_ok derived)

/-- The initiator writes its packet whatever it hears. The receiver answers to it,
and on that answer both succeed: each has taken exactly the other's packet off the
connection, knows the other's node ID, and holds the same secrets. -/
theorem handshake_agreement (lawful : Lawful curve) (initiator receiver : PrivateKey curve)
    (drawnI drawnR : Random curve) (assumed : Assumed initiator receiver drawnI drawnR) :
    ∃ auth resp left right,
      (∀ input, (stateOf (initiatorEncHandshake initiator (pubkeyID receiver.point) drawnI
        ⟨input, []⟩)).output = auth) ∧
      (∀ rest, receiverEncHandshake receiver drawnR ⟨auth ++ rest, []⟩ = .ok right ⟨rest, resp⟩) ∧
      (∀ rest, initiatorEncHandshake initiator (pubkeyID receiver.point) drawnI
        ⟨resp ++ rest, []⟩ = .ok left ⟨rest, auth⟩) ∧
      left.remoteID = pubkeyID receiver.point ∧ right.remoteID = pubkeyID initiator.point ∧
      Agreed left right := by
  obtain ⟨auth, opened⟩ : ∃ auth, authPacket initiator receiver drawnI = .ok auth :=
    seal_total rfl assumed.authReturns
  obtain ⟨resp, answered⟩ : ∃ resp, respPacket initiator drawnI drawnR = .ok resp :=
    seal_total rfl assumed.respReturns
  obtain ⟨left, right, leftDerived, rightDerived, leftID, rightID, agreed⟩ :=
    secrets_agree lawful receiver initiator drawnI drawnR auth resp
  refine ⟨auth, resp, left, right, initiator_writes lawful opened, ?_, ?_, leftID, rightID, agreed⟩
  · intro rest
    exact receiver_answers lawful assumed.signs answered rightDerived
      (receiver_reads lawful assumed opened rest)
  · intro rest
    rw [initiator_opens lawful opened, and_then_ok (initiator_reads lawful assumed answered rest auth)]
    refine Eq.trans (and_then_ok (pure_step_ok (handle_auth_resp lawful))) ?_
    exact pure_step_ok leftDerived

end Agreement

section Clock

/-- The group of the numbers modulo 251, as a curve. The second coordinate of a
multiple of the base point tells numbers apart that are the same point. -/
def clock : Curve where
  p := 65536
  n := 251
  scalarMult point k := ⟨point.x * k % 251, point.x * k % 251⟩
  scalarBaseMult k := ⟨k % 251, k % 65536⟩
  add left right := ⟨(left.x + right.x) % 251, (left.x + right.x) % 251⟩
  isOnCurve _ := true

theorem clock_reduced (number : Nat) : number % 251 < clock.p :=
  Nat.lt_trans (Nat.mod_lt _ (by decide)) (by decide)

theorem clock_lawful : Lawful clock where
  field := by decide
  order := by decide
  commutes a b := by
    have same : a % 251 * b % 251 = b % 251 * a % 251 := by
      rw [Nat.mod_mul_mod, Nat.mod_mul_mod, Nat.mul_comm]
    simp only [clock, same]
  base k := ⟨clock_reduced k, Nat.mod_lt _ (by decide)⟩
  multiple a k := ⟨clock_reduced _, clock_reduced _⟩
  onCurve _ _ _ := rfl

def alice : PrivateKey clock := ⟨1, by decide, by decide⟩

def bob : PrivateKey clock := ⟨2, by decide, by decide⟩

/-- The numbers of the signature belong to the ephemeral key 3, the nonce 5 and the
static secret 2. -/
def drawing (k : Nat) : Random clock where
  nonce := ⟨List.replicate 32 0, rfl⟩
  ephemeral := ⟨3, by decide, by decide⟩
  sign _ _ := (7, 247)
  pad := 0
  ks := [k]

theorem clock_signs (k : Nat) : Signs alice bob (drawing k) := by
  have signed : xor (token alice bob) (drawing k).nonce.1 = toBytes 32 2 := rfl
  unfold Signs
  rw [signed]
  change Sm2.verify clock (some ⟨3, 3⟩) (toBytes 32 2) (7 : Nat) (247 : Nat) = .ok true
  decide +kernel

theorem clock_key_nonzero : (kdfHash (toBytes 32 6 ++ toBytes 32 6) 0).headD 0 ≠ 0 := by
  decide +kernel

theorem clock_six : pad32 (minimal 6) = toBytes 32 6 := pad32_minimal (by decide)

theorem clock_encrypts {prv : PrivateKey clock} {data : List UInt8} {k : Nat} (nonempty : data ≠ [])
    (shared : clock.scalarMult prv.point k = ⟨6, 6⟩) :
    ∃ cipher, encryptWith clock prv.point data k = some cipher ∧
      encrypt clock prv.point data [k] = some cipher := by
  have usable : (kdf (toBytes 32 6) (toBytes 32 6) data.length).2 = true :=
    kdf_usable (List.length_pos_iff.mpr nonempty) clock_key_nonzero
  obtain ⟨cipher, round⟩ : ∃ cipher, encryptWith clock prv.point data k = some cipher := by
    rw [encryptWith, shared]
    dsimp only
    rw [clock_six, usable]
    exact ⟨_, rfl⟩
  refine ⟨cipher, round, ?_⟩
  rw [encrypt, if_neg (by simpa using nonempty), List.findSome?_cons, round]

theorem clock_packet {prv : PrivateKey clock} {h : EncHandshake clock} (encoded : List UInt8)
    {k : Nat} (remote : h.remotePub = some prv.point)
    (shared : clock.scalarMult prv.point k = ⟨6, 6⟩) :
    h.sealEIP8 encoded (drawing k) =
      .ok (toBytes 2 (encoded.length + 213) ++ (0x04 :: (toBytes 32 (k % 251) ++
        (toBytes 32 (k % 65536) ++
          (sm3Sum (toBytes 32 6 ++ (encoded ++ List.replicate 100 0) ++ toBytes 32 6) ++
            List.zipWith (· ^^^ ·) (kdf (toBytes 32 6) (toBytes 32 6) (encoded.length + 100)).1
              (encoded ++ List.replicate 100 0)))))) := by
  have plain : padded encoded (drawing k) = encoded ++ List.replicate 100 0 := rfl
  have size : (encoded ++ List.replicate 100 (0 : UInt8)).length = encoded.length + 100 := by simp
  have nonempty : encoded ++ List.replicate 100 (0 : UInt8) ≠ [] := by simp
  obtain ⟨cipher, round, ran⟩ := clock_encrypts nonempty shared
  obtain ⟨p2, same, _, parts⟩ := encrypt_with_parts (lawful_exchanges clock_lawful) round
  rw [shared] at same
  subst same
  rw [clock_six, size] at parts
  have drawn : encrypt clock prv.point (encoded ++ List.replicate 100 0) (drawing k).ks =
      some cipher := ran
  unfold EncHandshake.sealEIP8 EncHandshake.encryptRemote
  rw [remote, plain]
  dsimp only
  rw [drawn, size, parts]
  rfl

/-- The last two bytes of the point stand where `Decrypt` of the whole packet looks
for the digest. -/
theorem clock_point_split {size x y : Nat} (small : y < 65536) (more : List UInt8) :
    toBytes 2 size ++ (0x04 :: (toBytes 32 x ++ (toBytes 32 y ++ more))) =
      (toBytes 2 size ++ (0x04 :: (toBytes 32 x ++ toBytes 30 0))) ++ (toBytes 2 y ++ more) := by
  have none : y / 256 ^ 2 = 0 := Nat.div_eq_of_lt small
  have split : toBytes 32 y = toBytes 30 0 ++ toBytes 2 y := by
    rw [← none]
    exact to_bytes_add 30 2 y
  rw [split]
  simp only [List.append_assoc, List.cons_append]

/-- Of two random numbers for the same point, one gives a packet whose start is
refused. -/
theorem clock_start_refused (prv : PrivateKey clock) (h : EncHandshake clock)
    (encoded : List UInt8) (k plainSize : Nat) (remote : h.remotePub = some prv.point)
    (shared : clock.scalarMult prv.point k = ⟨6, 6⟩) (small : k + 251 < 65536)
    (behind : 97 ≤ plainSize) :
    ∃ number packet, h.sealEIP8 encoded (drawing number) = .ok packet ∧
      ∃ err, decrypt prv (packet.take plainSize) = .error err := by
  have again : clock.scalarMult prv.point (k + 251) = ⟨6, 6⟩ := by
    rw [← shared]
    simp only [clock, Nat.mul_add, Nat.add_mul_mod_self_right]
  have first := clock_packet encoded remote shared
  have second := clock_packet encoded remote again
  rw [Nat.mod_eq_of_lt (by omega : k < 65536), clock_point_split (by omega)] at first
  rw [Nat.add_mod_right, Nat.mod_eq_of_lt small, clock_point_split small] at second
  have different : toBytes 2 k ≠ toBytes 2 (k + 251) := by
    intro same
    have numbers := congrArg ofBytes same
    rw [of_bytes_to_bytes (by omega), of_bytes_to_bytes (by omega)] at numbers
    omega
  have point : (toBytes 2 (encoded.length + 213) ++
      (0x04 :: (toBytes 32 (k % 251) ++ toBytes 30 0))).length = 65 := by
    simp
  have room : 30 ≤ (sm3Sum (toBytes 32 6 ++ (encoded ++ List.replicate 100 0) ++ toBytes 32 6) ++
      List.zipWith (· ^^^ ·) (kdf (toBytes 32 6) (toBytes 32 6) (encoded.length + 100)).1
        (encoded ++ List.replicate 100 0)).length := by
    have digest : (sm3Sum (toBytes 32 6 ++ (encoded ++ List.replicate 100 0) ++
      toBytes 32 6)).length = 32 := sum_length _ _
    rw [List.length_append, digest]
    omega
  rcases one_digest_refused prv point (to_bytes_length _ _) (to_bytes_length _ _) room behind
    different with refused | refused
  · exact ⟨k, _, first, refused⟩
  · exact ⟨k + 251, _, second, refused⟩

theorem handshake_agreement_on_clock :
    ∃ i r, Assumed alice bob (drawing i) (drawing r) ∧
      ∃ auth resp left right,
        (∀ input, (stateOf (initiatorEncHandshake alice (pubkeyID bob.point) (drawing i)
          ⟨input, []⟩)).output = auth) ∧
        (∀ rest, receiverEncHandshake bob (drawing r) ⟨auth ++ rest, []⟩ =
          .ok right ⟨rest, resp⟩) ∧
        (∀ rest, initiatorEncHandshake alice (pubkeyID bob.point) (drawing i) ⟨resp ++ rest, []⟩ =
          .ok left ⟨rest, auth⟩) ∧
        left.remoteID = pubkeyID bob.point ∧ right.remoteID = pubkeyID alice.point ∧
        Agreed left right := by
  obtain ⟨i, auth, opened, authRefused⟩ := clock_start_refused bob
    (initiatorState bob (drawing 3)) (authMsg alice bob (drawing 3)).encode 3 encAuthMsgLen
    rfl rfl (by decide) (by decide)
  obtain ⟨r, resp, answered, respRefused⟩ := clock_start_refused alice
    (receiverState alice (drawing i) (drawing 6)) (respMsg (drawing 6)).encode 6 encAuthRespLen
    rfl rfl (by decide) (by decide)
  have authIs : authPacket alice bob (drawing i) = .ok auth := opened
  have respIs : respPacket alice (drawing i) (drawing r) = .ok resp := answered
  have assumed : Assumed alice bob (drawing i) (drawing r) := by
    refine ⟨clock_signs i, ?_, ?_, ?_, ?_⟩
    · simp [authIs]
    · simp [respIs]
    · intro packet same
      rw [authIs] at same
      rwa [← Except.ok.inj same]
    · intro packet same
      rw [respIs] at same
      rwa [← Except.ok.inj same]
  exact ⟨i, r, assumed, handshake_agreement clock_lawful alice bob (drawing i) (drawing r) assumed⟩

end Clock

section Link

/-- The key stream of a block cipher in counter mode, from the zero counter on. -/
def newCTR (block : RlpxFrames.BlockCipher) : RlpxFrames.CipherStream where
  key pos := (block.encrypt (toBytes 16 (pos / 16))).getD (pos % 16) 0
  pos := 0

/-- `aes.NewCipher` takes both keys: they are hashes of 32 bytes. -/
def newRLPXFrameRW (newCipher : List UInt8 → RlpxFrames.BlockCipher) (conn : Conn)
    (s : Secrets) : RlpxFrames.FrameRW where
  input := conn.input
  output := conn.output
  enc := newCTR (newCipher s.aes)
  dec := newCTR (newCipher s.aes)
  macCipher := newCipher s.mac
  egressMAC := s.egressMAC
  ingressMAC := s.ingressMAC

/-- After the handshake both directions of the link are in step. -/
theorem agreed_links_mirrored {left right : Secrets} (agreed : Agreed left right)
    (newCipher : List UInt8 → RlpxFrames.BlockCipher) (near far : Conn) :
    RlpxFrames.Mirrored (newRLPXFrameRW newCipher near left) (newRLPXFrameRW newCipher far right) ∧
      RlpxFrames.Mirrored (newRLPXFrameRW newCipher far right)
        (newRLPXFrameRW newCipher near left) := by
  obtain ⟨aes, mac, forth, back⟩ := agreed
  simp only [RlpxFrames.Mirrored, RlpxFrames.egress, RlpxFrames.ingress, newRLPXFrameRW, aes, mac,
    forth, back, and_self]

end Link

end PbftBlock.RlpxHandshake
