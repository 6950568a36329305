import PbftBlock.ConsensusMessages
import PbftBlock.Sm2Signatures

/-!
# The key file of a node

`SaveECDSA` writes the bytes of the private number in hexadecimal, as many as
the number has; `LoadECDSA` wants sixty-four digits. `NodeKey` takes every
failure to load for a missing file: it draws a new key and writes it over the
old one.
-/

namespace PbftBlock.KeyFiles

open PbftBlock.ConsensusMessages (hexDigit)
open PbftBlock.Library.BigEndian PbftBlock.Sm2 PbftBlock.Sm2Signatures

set_option autoImplicit false

section Hexadecimal

def hexChar (digit : UInt8) : UInt8 := if digit < 10 then 48 + digit else 87 + digit

def encodeToString (src : List UInt8) : List UInt8 :=
  src.flatMap fun byte : UInt8 => [hexChar (byte >>> 4), hexChar (byte &&& 15)]

/-- The errors of `LoadECDSA`: of `os.Open`, of `io.ReadFull` and of
`hex.DecodeString`. -/
inductive KeyFileError where
  | notExist
  | eof
  | unexpectedEOF
  | invalidByte (byte : UInt8)
  | oddLength
deriving DecidableEq

def decodeString : List UInt8 → Except KeyFileError (List UInt8)
  | high :: low :: rest =>
      match hexDigit high, hexDigit low with
      | none, _ => .error (.invalidByte high)
      | some _, none => .error (.invalidByte low)
      | some upper, some lower => (decodeString rest).map ((16 * upper + lower) :: ·)
  | [single] => .error (if (hexDigit single).isNone then .invalidByte single else .oddLength)
  | [] => .ok []

theorem hex_digits_of_byte (byte : UInt8) :
    ∃ upper lower : UInt8, hexDigit (hexChar (byte >>> 4)) = some upper ∧
      hexDigit (hexChar (byte &&& 15)) = some lower ∧ 16 * upper + lower = byte := by
  have all : ∀ number < 256,
      hexDigit (hexChar (UInt8.ofNat number >>> 4)) = some (UInt8.ofNat number >>> 4) ∧
        hexDigit (hexChar (UInt8.ofNat number &&& 15)) = some (UInt8.ofNat number &&& 15) ∧
        (16 : UInt8) * (UInt8.ofNat number >>> 4) + (UInt8.ofNat number &&& 15) =
          UInt8.ofNat number := by
    decide +kernel
  have here := all byte.toNat byte.toNat_lt
  rw [UInt8.ofNat_toNat] at here
  exact ⟨_, _, here⟩

theorem decode_string_encoded (src : List UInt8) : decodeString (encodeToString src) = .ok src := by
  induction src with
  | nil => rfl
  | cons byte rest induction =>
      obtain ⟨upper, lower, high, low, whole⟩ := hex_digits_of_byte byte
      have step : decodeString (encodeToString (byte :: rest)) =
          (decodeString (encodeToString rest)).map ((16 * upper + lower) :: ·) := by
        change decodeString (hexChar (byte >>> 4) :: hexChar (byte &&& 15) ::
          encodeToString rest) = _
        rw [decodeString, high, low]
      rw [step, induction, whole]
      rfl

theorem encode_to_string_length (src : List UInt8) :
    (encodeToString src).length = 2 * src.length := by
  induction src with
  | nil => rfl
  | cons byte rest induction =>
      change (encodeToString rest).length + 1 + 1 = 2 * (rest.length + 1)
      omega

end Hexadecimal

section Transcription

variable {curve : Curve}

/-- A key as it is loaded: any number with its multiple of the base point. -/
structure KeyPair where
  d : Nat
  point : Point
deriving DecidableEq

def keyPair (prv : PrivateKey curve) : KeyPair := ⟨prv.d, prv.point⟩

def toECDSA (curve : Curve) (prv : List UInt8) : Option KeyPair :=
  if prv.isEmpty then none else some ⟨ofBytes prv, curve.scalarBaseMult (ofBytes prv)⟩

def fromECDSA (prv : KeyPair) : List UInt8 := minimal prv.d

abbrev File := Option (List UInt8)

def readFull (content : List UInt8) (size : Nat) : Except KeyFileError (List UInt8) :=
  if size ≤ content.length then .ok (content.take size)
  else if content.isEmpty then .error .eof
  else .error .unexpectedEOF

def loadECDSA (curve : Curve) (file : File) : Except KeyFileError (Option KeyPair) :=
  match file with
  | none => .error .notExist
  | some content =>
      match readFull content 64 with
      | .error err => .error err
      | .ok buf =>
          match decodeString buf with
          | .error err => .error err
          | .ok key => .ok (toECDSA curve key)

def saveECDSA (key : KeyPair) : File := some (encodeToString (fromECDSA key))

def generateKey (curve : Curve) (b : Draw) : KeyPair :=
  let k := randFieldElement curve b
  ⟨k, curve.scalarBaseMult k⟩

/-- `NodeKey` on the file `privatekey.txt`, with the bytes it may have to draw:
the key, and the file afterwards. -/
def nodeKey (curve : Curve) (b : Draw) (file : File) : KeyPair × File :=
  match loadECDSA curve file with
  | .ok (some pk) => (pk, file)
  | _ => (generateKey curve b, saveECDSA (generateKey curve b))

end Transcription

section Restarts

variable {curve : Curve}

theorem saved_length (key : KeyPair) :
    (encodeToString (fromECDSA key)).length = 2 * (minimal key.d).length :=
  encode_to_string_length _

theorem load_saved {prv : PrivateKey curve} (whole : (minimal prv.d).length = 32) :
    loadECDSA curve (saveECDSA (keyPair prv)) = .ok (some (keyPair prv)) := by
  have length : (encodeToString (fromECDSA (keyPair prv))).length = 64 := by
    rw [saved_length]
    change 2 * (minimal prv.d).length = 64
    omega
  have full : readFull (encodeToString (fromECDSA (keyPair prv))) 64 =
      .ok (encodeToString (fromECDSA (keyPair prv))) := by
    unfold readFull
    rw [if_pos (by omega), List.take_of_length_le (by omega)]
  have nonempty : (minimal prv.d).isEmpty = false := by
    rw [List.isEmpty_eq_false_iff_exists_mem]
    exact List.exists_mem_of_length_pos (by omega)
  unfold loadECDSA saveECDSA
  dsimp only
  rw [full]
  dsimp only
  rw [decode_string_encoded]
  dsimp only
  unfold toECDSA fromECDSA keyPair
  dsimp only
  rw [nonempty, of_bytes_minimal]
  rfl

theorem load_saved_short {prv : PrivateKey curve} (short : (minimal prv.d).length < 32) :
    loadECDSA curve (saveECDSA (keyPair prv)) = .error .unexpectedEOF := by
  have length : (encodeToString (fromECDSA (keyPair prv))).length < 64 := by
    rw [saved_length]
    change 2 * (minimal prv.d).length < 64
    omega
  have nonempty : (encodeToString (fromECDSA (keyPair prv))).isEmpty = false := by
    obtain ⟨first, more, bytes, _⟩ := minimal_leading (Nat.pos_iff_ne_zero.mp prv.positive)
    change (encodeToString (minimal prv.d)).isEmpty = false
    rw [bytes]
    rfl
  have cut : readFull (encodeToString (fromECDSA (keyPair prv))) 64 = .error .unexpectedEOF := by
    unfold readFull
    rw [if_neg (by omega), nonempty]
    rfl
  unfold loadECDSA saveECDSA
  dsimp only
  rw [cut]

/-- The key is loaded as it was saved, and `NodeKey` returns it and leaves the
file alone, whatever it would draw. -/
structure SurvivesRestart (prv : PrivateKey curve) : Prop where
  loaded : loadECDSA curve (saveECDSA (keyPair prv)) = .ok (some (keyPair prv))
  again : ∀ b, nodeKey curve b (saveECDSA (keyPair prv)) = (keyPair prv, saveECDSA (keyPair prv))

/-- A key survives a restart exactly when its number has no leading zero byte. -/
theorem node_key_survives_restart_iff (curve : Curve) (order : curve.n ≤ 256 ^ 32)
    (prv : PrivateKey curve) : SurvivesRestart prv ↔ 256 ^ 31 ≤ prv.d := by
  have fits : (minimal prv.d).length ≤ 32 :=
    (minimal_length_le_iff 32 prv.d).mpr (Nat.lt_of_lt_of_le prv.below order)
  have short := minimal_length_le_iff 31 prv.d
  constructor
  · intro survives
    by_contra small
    have loaded := survives.loaded
    rw [load_saved_short (by omega)] at loaded
    cases loaded
  · intro large
    have loaded : loadECDSA curve (saveECDSA (keyPair prv)) = .ok (some (keyPair prv)) :=
      load_saved (by omega)
    refine ⟨loaded, fun b => ?_⟩
    unfold nodeKey
    rw [loaded]

def counting : Curve where
  p := 256 ^ 32
  n := 0xFFFFFFFEFFFFFFFFFFFFFFFFFFFFFFFF7203DF6B21C6052B53BBF40939D54123
  scalarMult point k := ⟨point.x * k, point.x * k⟩
  scalarBaseMult k := ⟨k, k⟩
  add left right := ⟨left.x + right.x, left.x + right.x⟩
  isOnCurve _ := true

def largeKey : PrivateKey counting := ⟨256 ^ 31, by decide +kernel, by decide +kernel⟩

def smallKey : PrivateKey counting := ⟨1, Nat.one_pos, by decide +kernel⟩

theorem large_node_key_survives_restart : SurvivesRestart largeKey :=
  (node_key_survives_restart_iff counting (by decide +kernel) largeKey).mpr (Nat.le_refl _)

/-- A small key is saved in two digits and not loaded again: the next start of
the node returns another key and has overwritten the file. -/
theorem small_node_key_is_replaced :
    saveECDSA (keyPair smallKey) = some [48, 49] ∧
      loadECDSA counting (saveECDSA (keyPair smallKey)) = .error .unexpectedEOF ∧
      nodeKey counting (drawOf 1) (saveECDSA (keyPair smallKey)) = (⟨2, ⟨2, 2⟩⟩, some [48, 50]) := by
  refine ⟨?_, ?_, ?_⟩ <;> decide +kernel

end Restarts

end PbftBlock.KeyFiles
