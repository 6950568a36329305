import PbftBlock.Sm2

/-!
# Public keys as bytes

Keys travel in the uncompressed form, signatures carry their key, and a node is
named by its key without the leading format byte.
-/

namespace PbftBlock.NodeKeys

open PbftBlock.Library.BigEndian PbftBlock.Sm2

set_option autoImplicit false

abbrev Bytes (n : Nat) := { b : List UInt8 // b.length = n }

def copyBytes (n : Nat) (src : List UInt8) : Bytes n :=
  ⟨src.take n ++ List.replicate (n - src.length) 0, by
    rw [List.length_append, List.length_take, List.length_replicate]
    omega⟩

theorem copy_bytes_whole {n : Nat} (array : Bytes n) : copyBytes n array.1 = array := by
  have size := array.2
  apply Subtype.ext
  change array.1.take n ++ List.replicate (n - array.1.length) 0 = array.1
  rw [List.take_of_length_le (by omega), size, Nat.sub_self]
  exact List.append_nil _

theorem copy_bytes_take {n : Nat} {src : List UInt8} (fits : src.length ≤ n) :
    (copyBytes n src).1.take src.length = src := by
  change (src.take n ++ List.replicate (n - src.length) 0).take src.length = src
  rw [List.take_of_length_le fits, List.take_left]

variable {curve : Curve}

def marshal (point : Point) : List UInt8 := 0x04 :: (toBytes 32 point.x ++ toBytes 32 point.y)

def unmarshal (curve : Curve) (data : List UInt8) : PublicKey :=
  if data.length ≠ 65 then none
  else if data.headD 0 ≠ 0x04 then none
  else
    let point : Point := ⟨ofBytes ((data.drop 1).take 32), ofBytes (data.drop 33)⟩
    if curve.p ≤ point.x ∨ curve.p ≤ point.y then none
    else if curve.isOnCurve point then some point
    else none

/-- The pointer is nil for no bytes, the coordinates are nil for bad ones. -/
def toECDSAPub (curve : Curve) (pub : List UInt8) : Option PublicKey :=
  if pub.isEmpty then none else some (unmarshal curve pub)

def fromECDSAPub (pub : PublicKey) : List UInt8 :=
  match pub with
  | none => []
  | some point => marshal point

def sign (prv : PrivateKey curve) (digits : Nat × Nat) : List UInt8 :=
  signDigitToSignData (fromECDSAPub (some prv.point)) digits.1 digits.2

def verify (curve : Curve) (hash sig : List UInt8) : Except CryptoError Bool :=
  match signDataToSignDigit sig with
  | none => .ok false
  | some (v, r, s) =>
      match toECDSAPub curve v with
      | none => .error .panicked
      | some pub => Sm2.verify curve pub hash r s

/-- `Ecrecover` takes the key out of a signature that verifies under it. -/
def ecrecover (curve : Curve) (hash sig : List UInt8) : Except CryptoError (List UInt8) :=
  match verify curve hash sig with
  | .error err => .error err
  | .ok false => .error (.text "verify failed")
  | .ok true =>
      match signDataToSignDigit sig with
      | none => .error .asn1
      | some (v, _, _) => .ok v

abbrev NodeID := Bytes 64

def pubkeyID (point : Point) : NodeID := copyBytes 64 ((marshal point).drop 1)

/-- `Pubkey`; that the point is on the curve is not checked. -/
def NodeID.pubkey (id : NodeID) : PublicKey :=
  some ⟨ofBytes (id.1.take 32), ofBytes (id.1.drop 32)⟩

theorem marshal_length (point : Point) : (marshal point).length = 65 := by
  simp [marshal]

theorem unmarshal_marshal (lawful : Lawful curve) {point : Point} (reduced : Reduced curve point)
    (valid : curve.isOnCurve point = true) : unmarshal curve (marshal point) = some point := by
  obtain ⟨xSmall, ySmall⟩ := reduced
  have field := lawful.field
  have xBytes : ofBytes (((marshal point).drop 1).take 32) = point.x := by
    rw [marshal, List.drop_one, List.tail_cons, List.take_left' (to_bytes_length _ _),
      of_bytes_to_bytes (Nat.lt_of_lt_of_le xSmall field)]
  have yBytes : ofBytes ((marshal point).drop 33) = point.y := by
    rw [marshal, List.drop_succ_cons, List.drop_left' (to_bytes_length _ _),
      of_bytes_to_bytes (Nat.lt_of_lt_of_le ySmall field)]
  rw [unmarshal, if_neg (by simp [marshal_length]), if_neg (by simp [marshal])]
  dsimp only
  rw [xBytes, yBytes, if_neg (by omega), if_pos valid]

theorem unmarshal_key (lawful : Lawful curve) (prv : PrivateKey curve) :
    unmarshal curve (marshal prv.point) = some prv.point :=
  unmarshal_marshal lawful (lawful.base _) (lawful.onCurve _ prv.positive prv.below)

theorem pubkey_id_bytes (point : Point) :
    (pubkeyID point).1 = toBytes 32 point.x ++ toBytes 32 point.y := by
  have size : (toBytes 32 point.x ++ toBytes 32 point.y).length = 64 := by simp
  have whole := copy_bytes_whole ⟨toBytes 32 point.x ++ toBytes 32 point.y, size⟩
  exact congrArg Subtype.val whole

theorem pubkey_of_id (lawful : Lawful curve) {point : Point} (reduced : Reduced curve point) :
    NodeID.pubkey (pubkeyID point) = some point := by
  obtain ⟨xSmall, ySmall⟩ := reduced
  have field := lawful.field
  rw [NodeID.pubkey, pubkey_id_bytes, List.take_left' (to_bytes_length _ _),
    List.drop_left' (to_bytes_length _ _), of_bytes_to_bytes (Nat.lt_of_lt_of_le xSmall field),
    of_bytes_to_bytes (Nat.lt_of_lt_of_le ySmall field)]

section Signatures

variable {prv : PrivateKey curve} {hash : List UInt8} {digits : Nat × Nat}

theorem verified_small (lawful : Lawful curve)
    (right : Sm2.verify curve (some prv.point) hash digits.1 digits.2 = .ok true) :
    digits.1 < 256 ^ 32 ∧ digits.2 < 256 ^ 32 := by
  obtain ⟨rBelow, sBelow⟩ := verify_bounds right
  exact ⟨Nat.lt_of_lt_of_le rBelow lawful.order, Nat.lt_of_lt_of_le sBelow lawful.order⟩

theorem sign_length (lawful : Lawful curve)
    (right : Sm2.verify curve (some prv.point) hash digits.1 digits.2 = .ok true) :
    (sign prv digits).length ≤ 140 := by
  obtain ⟨rSmall, sSmall⟩ := verified_small lawful right
  exact sign_data_length (marshal_length _) rSmall sSmall

theorem ecrecover_sign (lawful : Lawful curve)
    (right : Sm2.verify curve (some prv.point) hash digits.1 digits.2 = .ok true) :
    ecrecover curve hash (sign prv digits) = .ok (marshal prv.point) := by
  obtain ⟨rSmall, sSmall⟩ := verified_small lawful right
  have parsed : signDataToSignDigit (sign prv digits) =
      some (marshal prv.point, (digits.1 : Int), (digits.2 : Int)) :=
    sign_digit_written (marshal_length _) rSmall sSmall
  have key : toECDSAPub curve (marshal prv.point) = some (some prv.point) := by
    rw [toECDSAPub, if_neg (by simp [marshal]), unmarshal_key lawful]
  have checked : verify curve hash (sign prv digits) = .ok true := by
    rw [verify, parsed]
    dsimp only
    rw [key]
    exact right
  rw [ecrecover, checked, parsed]

end Signatures

end PbftBlock.NodeKeys
