import PbftBlock.Library.Der
import PbftBlock.Library.Ciphers
import PbftBlock.Sm3

/-!
# SM2 keys, encryption and signatures

The curve is a parameter: its field arithmetic is not modelled, only what the
package computes with it. What is assumed of it is collected in `Lawful`. Random
numbers are arguments.
-/

namespace PbftBlock.Sm2

open PbftBlock.Library.BigEndian PbftBlock.Library.Der
open PbftBlock.Library.Ciphers (xor_pad_twice)
open PbftBlock.Sm3

set_option autoImplicit false

structure Point where
  x : Nat
  y : Nat
deriving DecidableEq

structure Curve where
  p : Nat
  n : Nat
  scalarMult : Point → Nat → Point
  scalarBaseMult : Nat → Point
  add : Point → Point → Point
  isOnCurve : Point → Bool

def Reduced (curve : Curve) (point : Point) : Prop := point.x < curve.p ∧ point.y < curve.p

/-- Multiples of the base point commute. They are points of the curve with reduced
coordinates, and neither the field nor the group needs more than 256 bits. -/
structure Lawful (curve : Curve) : Prop where
  field : curve.p ≤ 256 ^ 32
  order : curve.n ≤ 256 ^ 32
  commutes : ∀ a b, curve.scalarMult (curve.scalarBaseMult a) b =
    curve.scalarMult (curve.scalarBaseMult b) a
  base : ∀ k, Reduced curve (curve.scalarBaseMult k)
  multiple : ∀ a k, Reduced curve (curve.scalarMult (curve.scalarBaseMult a) k)
  onCurve : ∀ k, 1 ≤ k → k < curve.n → curve.isOnCurve (curve.scalarBaseMult k) = true

/-- What encryption needs of a curve: multiples of the base point commute, and their
coordinates have at most 32 bytes. -/
structure Exchanges (curve : Curve) : Prop where
  commutes : ∀ a b, curve.scalarMult (curve.scalarBaseMult a) b =
    curve.scalarMult (curve.scalarBaseMult b) a
  xFits : ∀ k, (curve.scalarBaseMult k).x < 256 ^ 32
  yFits : ∀ k, (curve.scalarBaseMult k).y < 256 ^ 32

theorem lawful_exchanges {curve : Curve} (lawful : Lawful curve) : Exchanges curve where
  commutes := lawful.commutes
  xFits k := Nat.lt_of_lt_of_le (lawful.base k).1 lawful.field
  yFits k := Nat.lt_of_lt_of_le (lawful.base k).2 lawful.field

/-- The range of the private numbers that `GenerateKey` draws. -/
structure PrivateKey (curve : Curve) where
  d : Nat
  positive : 1 ≤ d
  below : d < curve.n

/-- The coordinates of a public key; `none` when both are nil. -/
abbrev PublicKey := Option Point

variable {curve : Curve}

def PrivateKey.point (prv : PrivateKey curve) : Point := curve.scalarBaseMult prv.d

/-- An error with its text, one of the package `asn1`, or a panic. -/
inductive CryptoError where
  | text (msg : String)
  | asn1
  | panicked
deriving DecidableEq

def pad32 (buf : List UInt8) : List UInt8 :=
  if buf.length < 32 then List.replicate (32 - buf.length) 0 ++ buf else buf

def intToBytes (x : Nat) : List UInt8 := toBytes 4 x

def kdfHash (z : List UInt8) (i : Nat) : List UInt8 :=
  (sum (write (write new z) (intToBytes (i + 1))) []).1

def kdfBlock (z : List UInt8) (length i : Nat) : List UInt8 :=
  if i + 1 = (length + 31) / 32 ∧ length % 32 ≠ 0 then (kdfHash z i).take (length % 32)
  else kdfHash z i

/-- The derived bytes, and whether one of them is not zero. -/
def kdf (x y : List UInt8) (length : Nat) : List UInt8 × Bool :=
  let c := (List.range ((length + 31) / 32)).flatMap (kdfBlock (x ++ y) length)
  (c, (c.take length).any (· != 0))

/-- `c[offset+i] ^= data[i]` for all of `data`. -/
def xorAt (offset : Nat) (c data : List UInt8) : List UInt8 :=
  c.take offset ++ List.zipWith (· ^^^ ·) (c.drop offset) data ++ c.drop (offset + data.length)

/-- One round of the loop of `Encrypt`, with the number it draws; `none` when the
loop goes on. -/
def encryptWith (curve : Curve) (pub : Point) (data : List UInt8) (k : Nat) :
    Option (List UInt8) :=
  let p1 := curve.scalarBaseMult k
  let p2 := curve.scalarMult pub k
  let x1Buf := pad32 (minimal p1.x)
  let y1Buf := pad32 (minimal p1.y)
  let x2Buf := pad32 (minimal p2.x)
  let y2Buf := pad32 (minimal p2.y)
  let h := sm3Sum (x2Buf ++ data ++ y2Buf)
  let ct := kdf x2Buf y2Buf data.length
  if ct.2 then some (0x04 :: xorAt 96 (x1Buf ++ y1Buf ++ h ++ ct.1) data) else none

/-- `Encrypt` with the numbers it draws; `none` while they do not suffice. -/
def encrypt (curve : Curve) (pub : Point) (data : List UInt8) (ks : List Nat) :
    Option (List UInt8) :=
  if data.isEmpty then some data else ks.findSome? (encryptWith curve pub data)

def decrypt (prv : PrivateKey curve) (data : List UInt8) : Except CryptoError (List UInt8) :=
  if data.isEmpty then .ok data
  else
    let data := data.drop 1
    -- the coordinates are sliced out first, from a slice without spare capacity; between
    -- 64 and 95 bytes the length is negative, and `kdf` derives nothing from it as from zero
    if data.length < 64 then .error .panicked
    else
      let point : Point := ⟨ofBytes (data.take 32), ofBytes ((data.drop 32).take 32)⟩
      let p2 := curve.scalarMult point prv.d
      let x2Buf := pad32 (minimal p2.x)
      let y2Buf := pad32 (minimal p2.y)
      let key := kdf x2Buf y2Buf (data.length - 96)
      if key.2 then
        let c := List.zipWith (· ^^^ ·) key.1 (data.drop 96)
        if sm3Sum (x2Buf ++ c ++ y2Buf) = (data.drop 64).take 32 then .ok c
        else .error (.text "Decrypt: failed to decrypt")
      else .error (.text "Decrypt: failed to decrypt")

def maxSharedKeyLength : Nat := (256 + 7) / 8

def generateShared (prv : PrivateKey curve) (pub : PublicKey) (skLen macLen : Nat) :
    Except CryptoError (List UInt8) :=
  if maxSharedKeyLength < skLen + macLen then .error (.text "ErrSharedKeyTooBig")
  else
    match pub with
    | none => .error (.text "pubkey err")
    | some point =>
        let skBytes := minimal (curve.scalarMult point prv.d).x
        if skLen + macLen < skBytes.length then .error .panicked
        else .ok (List.replicate (skLen + macLen - skBytes.length) 0 ++ skBytes)

/-- `Verify`; the numbers come out of a signature and may be negative. -/
def verify (curve : Curve) (pub : PublicKey) (hash : List UInt8) (r s : Int) :
    Except CryptoError Bool :=
  if r ≤ 0 ∨ s ≤ 0 then .ok false
  else if curve.n ≤ r ∨ curve.n ≤ s then .ok false
  else
    let t := (r.toNat + s.toNat) % curve.n
    if t = 0 then .ok false
    else
      match pub with
      | none => .error .panicked
      | some point =>
          let x := (curve.add (curve.scalarBaseMult s.toNat) (curve.scalarMult point t)).x
          .ok ((x + ofBytes hash) % curve.n == r.toNat)

/-- The signature with its public key, as a sequence of a string and two integers. -/
def signDigitToSignData (v : List UInt8) (r s : Nat) : List UInt8 :=
  element 0x30 (element 0x04 v ++ element 0x02 (unsigned r) ++ element 0x02 (unsigned s))

/-- What follows the sequence, or the last integer in it, is ignored. -/
def signDataToSignDigit (sign : List UInt8) : Option (List UInt8 × Int × Int) := do
  let (content, _) ← parseElement 0x30 sign
  let (v, content) ← parseElement 0x04 content
  let (r, content) ← parseElement 0x02 content
  let (s, _) ← parseElement 0x02 content
  let r ← parseInteger r
  let s ← parseInteger s
  return (v, r, s)

section Encryption

theorem pad32_minimal {number : Nat} (small : number < 256 ^ 32) :
    pad32 (minimal number) = toBytes 32 number := by
  obtain ⟨short, bytes⟩ := pad_minimal small
  unfold pad32
  split_ifs with less
  · exact bytes
  · have full : 32 - (minimal number).length = 0 := by omega
    rw [full] at bytes
    exact bytes

theorem kdf_hash_length (z : List UInt8) (i : Nat) : (kdfHash z i).length = 32 := sum_length _ _

theorem whole_blocks_length (block : Nat → List UInt8) (count : Nat)
    (whole : ∀ i < count, (block i).length = 32) :
    ((List.range count).flatMap block).length = 32 * count := by
  induction count with
  | zero => rfl
  | succ count induction =>
      have before := induction fun i less => whole i (by omega)
      rw [List.range_succ, List.flatMap_append, List.length_append, before]
      simp only [List.flatMap_cons, List.flatMap_nil, List.append_nil]
      rw [whole count (by omega)]
      omega

/-- The last block is cut, so that exactly the wanted length is derived. -/
theorem kdf_length (x y : List UInt8) (length : Nat) : (kdf x y length).1.length = length := by
  have whole : ∀ i, ¬(i + 1 = (length + 31) / 32 ∧ length % 32 ≠ 0) →
      (kdfBlock (x ++ y) length i).length = 32 := by
    intro i inner
    rw [kdfBlock, if_neg inner, kdf_hash_length]
  change ((List.range ((length + 31) / 32)).flatMap (kdfBlock (x ++ y) length)).length = length
  by_cases even : length % 32 = 0
  · rw [whole_blocks_length _ _ fun i _ => whole i fun cut => cut.2 even]
    omega
  · have blocks : (length + 31) / 32 = length / 32 + 1 := by omega
    have last : (kdfBlock (x ++ y) length (length / 32)).length = length % 32 := by
      rw [kdfBlock, if_pos ⟨blocks.symm, even⟩, List.length_take, kdf_hash_length]
      omega
    rw [blocks, List.range_succ, List.flatMap_append, List.length_append,
      whole_blocks_length _ _ fun i less => whole i (by omega)]
    simp only [List.flatMap_cons, List.flatMap_nil, List.append_nil]
    rw [last]
    omega

theorem kdf_usable {x y : List UInt8} {length : Nat} (positive : 0 < length)
    (nonzero : (kdfHash (x ++ y) 0).headD 0 ≠ 0) : (kdf x y length).2 = true := by
  obtain ⟨blocks, count⟩ : ∃ blocks, (length + 31) / 32 = blocks + 1 :=
    ⟨(length + 31) / 32 - 1, by omega⟩
  obtain ⟨first, more, bytes⟩ : ∃ first more, kdfHash (x ++ y) 0 = first :: more := by
    apply List.exists_cons_of_length_pos
    rw [kdf_hash_length]
    decide
  rw [bytes, List.headD_cons] at nonzero
  obtain ⟨tail, block⟩ : ∃ tail, kdfBlock (x ++ y) length 0 = first :: tail := by
    unfold kdfBlock
    rw [bytes]
    split_ifs with cut
    · obtain ⟨rest, size⟩ : ∃ rest, length % 32 = rest + 1 := ⟨length % 32 - 1, by omega⟩
      exact ⟨more.take rest, by rw [size, List.take_succ_cons]⟩
    · exact ⟨more, rfl⟩
  obtain ⟨before, size⟩ : ∃ before, length = before + 1 := ⟨length - 1, by omega⟩
  change List.any (List.take length ((List.range ((length + 31) / 32)).flatMap _)) _ = true
  rw [count, List.range_succ_eq_map, List.flatMap_cons, block, List.cons_append, size,
    List.take_succ_cons, List.any_cons]
  simp [nonzero]

theorem xor_at_append {front key data : List UInt8} {offset : Nat}
    (size : front.length = offset) (same : key.length = data.length) :
    xorAt offset (front ++ key) data = front ++ List.zipWith (· ^^^ ·) key data := by
  have behind : (front ++ key).drop (offset + data.length) = [] := by
    apply List.drop_of_length_le
    rw [List.length_append]
    omega
  rw [xorAt, List.take_left' size, List.drop_left' size, behind, List.append_nil]

theorem encrypt_with_parts (exchanges : Exchanges curve) {prv : PrivateKey curve}
    {data cipher : List UInt8} {k : Nat}
    (done : encryptWith curve prv.point data k = some cipher) :
    ∃ p2, p2 = curve.scalarMult prv.point k ∧
      (kdf (pad32 (minimal p2.x)) (pad32 (minimal p2.y)) data.length).2 = true ∧
      cipher = 0x04 :: (toBytes 32 (curve.scalarBaseMult k).x ++
        (toBytes 32 (curve.scalarBaseMult k).y ++
          (sm3Sum (pad32 (minimal p2.x) ++ data ++ pad32 (minimal p2.y)) ++
            List.zipWith (· ^^^ ·)
              (kdf (pad32 (minimal p2.x)) (pad32 (minimal p2.y)) data.length).1 data))) := by
  refine ⟨_, rfl, ?_⟩
  unfold encryptWith at done
  dsimp only at done
  rw [pad32_minimal (exchanges.xFits k), pad32_minimal (exchanges.yFits k)] at done
  split_ifs at done with usable
  refine ⟨usable, ?_⟩
  have front : (toBytes 32 (curve.scalarBaseMult k).x ++ toBytes 32 (curve.scalarBaseMult k).y ++
      sm3Sum (pad32 (minimal (curve.scalarMult prv.point k).x) ++ data ++
        pad32 (minimal (curve.scalarMult prv.point k).y))).length = 96 := by
    simp [sm3Sum, sum_length]
  rw [xor_at_append front (kdf_length _ _ _)] at done
  rw [← Option.some.inj done, List.append_assoc, List.append_assoc]

theorem encrypt_round {pub : Point} {data cipher : List UInt8} {ks : List Nat}
    (nonempty : data ≠ []) (done : encrypt curve pub data ks = some cipher) :
    ∃ k ∈ ks, encryptWith curve pub data k = some cipher := by
  rw [encrypt, if_neg (by simpa using nonempty)] at done
  exact List.exists_of_findSome?_eq_some done

theorem encrypt_length (exchanges : Exchanges curve) {prv : PrivateKey curve}
    {data cipher : List UInt8} {ks : List Nat} (nonempty : data ≠ [])
    (done : encrypt curve prv.point data ks = some cipher) :
    cipher.length = data.length + 97 := by
  obtain ⟨k, _, round⟩ := encrypt_round nonempty done
  obtain ⟨p2, _, _, parts⟩ := encrypt_with_parts exchanges round
  rw [parts]
  simp only [List.length_cons, List.length_append, to_bytes_length, List.length_zipWith, kdf_length,
    sm3Sum, sum_length]
  omega

/-- Both sides derive the key from the same point. -/
theorem decrypt_encrypt (exchanges : Exchanges curve) {prv : PrivateKey curve}
    {data cipher : List UInt8} {ks : List Nat} (nonempty : data ≠ [])
    (done : encrypt curve prv.point data ks = some cipher) : decrypt prv cipher = .ok data := by
  have length := encrypt_length exchanges nonempty done
  obtain ⟨k, _, round⟩ := encrypt_round nonempty done
  obtain ⟨p2, shared, usable, parts⟩ := encrypt_with_parts exchanges round
  have digest : (sm3Sum (pad32 (minimal p2.x) ++ data ++ pad32 (minimal p2.y))).length = 32 :=
    sum_length _ _
  have agreed : curve.scalarMult (curve.scalarBaseMult k) prv.d = p2 := by
    rw [shared]
    exact exchanges.commutes k prv.d
  generalize xBytes : toBytes 32 (curve.scalarBaseMult k).x = x1Buf at parts
  generalize yBytes : toBytes 32 (curve.scalarBaseMult k).y = y1Buf at parts
  have xLength : x1Buf.length = 32 := by rw [← xBytes, to_bytes_length]
  have yLength : y1Buf.length = 32 := by rw [← yBytes, to_bytes_length]
  have xValue : ofBytes x1Buf = (curve.scalarBaseMult k).x := by
    rw [← xBytes, of_bytes_to_bytes (exchanges.xFits k)]
  have yValue : ofBytes y1Buf = (curve.scalarBaseMult k).y := by
    rw [← yBytes, of_bytes_to_bytes (exchanges.yFits k)]
  generalize tag : sm3Sum (pad32 (minimal p2.x) ++ data ++ pad32 (minimal p2.y)) = h
    at parts digest
  generalize body : List.zipWith (· ^^^ ·)
    (kdf (pad32 (minimal p2.x)) (pad32 (minimal p2.y)) data.length).1 data = ct at parts
  have drop64 : (x1Buf ++ (y1Buf ++ (h ++ ct))).drop 64 = h ++ ct := by
    rw [← List.append_assoc]
    exact List.drop_left' (by rw [List.length_append, xLength, yLength])
  have drop96 : (x1Buf ++ (y1Buf ++ (h ++ ct))).drop 96 = ct := by
    rw [← List.append_assoc, ← List.append_assoc]
    exact List.drop_left' (by rw [List.length_append, List.length_append, xLength, yLength, digest])
  have inside : cipher.drop 1 = x1Buf ++ (y1Buf ++ (h ++ ct)) := by
    rw [parts, List.drop_one, List.tail_cons]
  have size : (x1Buf ++ (y1Buf ++ (h ++ ct))).length = data.length + 96 := by
    rw [← inside, List.length_drop, length]
    omega
  have some : ¬cipher.isEmpty = true := by simp [parts]
  rw [decrypt, if_neg some, inside]
  dsimp only
  rw [if_neg (by omega), size, Nat.add_sub_cancel, List.take_left' xLength, List.drop_left' xLength,
    List.take_left' yLength, xValue, yValue, drop64, drop96, List.take_left' digest]
  rw [agreed, usable, if_pos rfl, ← body, xor_pad_twice (kdf_length _ _ _), tag, if_pos rfl]

/-- A text with room for a point is refused, not sliced out of range. -/
theorem decrypt_total {prv : PrivateKey curve} {data : List UInt8} (long : 65 ≤ data.length) :
    decrypt prv data ≠ .error .panicked := by
  have some : ¬data.isEmpty = true := by
    intro none
    rw [List.isEmpty_iff.mp none] at long
    exact absurd long (by decide)
  have room : ¬(data.drop 1).length < 64 := by
    rw [List.length_drop]
    omega
  rw [decrypt, if_neg some]
  dsimp only
  rw [if_neg room]
  split_ifs <;> simp

/-- The digest that `Decrypt` computes, from what stands before and behind the
digest in the text. -/
def recomputed (prv : PrivateKey curve) (front back : List UInt8) : List UInt8 :=
  let p2 := curve.scalarMult
    ⟨ofBytes ((front.drop 1).take 32), ofBytes ((front.drop 33).take 32)⟩ prv.d
  let x2Buf := pad32 (minimal p2.x)
  let y2Buf := pad32 (minimal p2.y)
  sm3Sum (x2Buf ++ List.zipWith (· ^^^ ·) (kdf x2Buf y2Buf back.length).1 back ++ y2Buf)

/-- A text is accepted with at most one digest in it. -/
theorem accepted_digest {prv : PrivateKey curve} {front digest back plain : List UInt8}
    (point : front.length = 65) (size : digest.length = 32)
    (accepted : decrypt prv (front ++ (digest ++ back)) = .ok plain) :
    digest = recomputed prv front back := by
  have some : ¬(front ++ (digest ++ back)).isEmpty = true := by
    intro none
    rw [List.isEmpty_iff, List.append_eq_nil_iff] at none
    rw [none.1] at point
    cases point
  have inside : (front ++ (digest ++ back)).drop 1 = front.drop 1 ++ (digest ++ back) :=
    List.drop_append_of_le_length (by omega)
  have width : (front.drop 1).length = 64 := by
    rw [List.length_drop, point]
  have length : (front.drop 1 ++ (digest ++ back)).length = back.length + 96 := by
    rw [List.length_append, List.length_append, width, size]
    omega
  have x : (front.drop 1 ++ (digest ++ back)).take 32 = (front.drop 1).take 32 :=
    List.take_append_of_le_length (by omega)
  have y : ((front.drop 1 ++ (digest ++ back)).drop 32).take 32 = (front.drop 33).take 32 := by
    rw [List.drop_append_of_le_length (by omega), List.drop_drop,
      List.take_append_of_le_length (by rw [List.length_drop]; omega)]
  have tag : ((front.drop 1 ++ (digest ++ back)).drop 64).take 32 = digest := by
    rw [List.drop_left' width, List.take_left' size]
  have body : (front.drop 1 ++ (digest ++ back)).drop 96 = back := by
    rw [← List.append_assoc]
    exact List.drop_left' (by rw [List.length_append, width, size])
  rw [decrypt, if_neg some, inside] at accepted
  dsimp only at accepted
  rw [if_neg (by omega), length, Nat.add_sub_cancel, x, y, tag, body] at accepted
  split_ifs at accepted with usable same
  exact same.symm

/-- Of two texts that differ in the first bytes of the digest alone, `Decrypt`
refuses one, also when both are cut off behind the digest. -/
theorem one_digest_refused (prv : PrivateKey curve) {front left right back : List UInt8} {n : Nat}
    (point : front.length = 65) (leftSize : left.length = 2) (rightSize : right.length = 2)
    (room : 30 ≤ back.length) (behind : 97 ≤ n) (different : left ≠ right) :
    (∃ err, decrypt prv ((front ++ (left ++ back)).take n) = .error err) ∨
      ∃ err, decrypt prv ((front ++ (right ++ back)).take n) = .error err := by
  have cut : ∀ start : List UInt8, start.length = 2 → (front ++ (start ++ back)).take n =
      front ++ ((start ++ back.take 30) ++ (back.drop 30).take (n - 97)) := by
    intro start size
    rw [List.take_append, List.take_of_length_le (by omega), point, List.take_append,
      List.take_of_length_le (by omega), size, List.append_assoc]
    have rest : back.take (n - 65 - 2) = back.take 30 ++ (back.drop 30).take (n - 97) := by
      rw [← List.take_add]
      congr 1
      omega
    rw [rest]
  have digest : ∀ start : List UInt8, start.length = 2 → (start ++ back.take 30).length = 32 := by
    intro start size
    rw [List.length_append, List.length_take, size]
    omega
  rw [cut left leftSize, cut right rightSize]
  cases first : decrypt prv (front ++ ((left ++ back.take 30) ++ (back.drop 30).take (n - 97))) with
  | error err => exact .inl ⟨err, rfl⟩
  | ok plain =>
      cases second : decrypt prv
          (front ++ ((right ++ back.take 30) ++ (back.drop 30).take (n - 97))) with
      | error err => exact .inr ⟨err, rfl⟩
      | ok other =>
          have one := accepted_digest point (digest left leftSize) first
          have two := accepted_digest point (digest right rightSize) second
          exact absurd (List.append_cancel_right (one.trans two.symm)) different

end Encryption

section Agreement

theorem generate_shared_base (lawful : Lawful curve) (prv other : PrivateKey curve) :
    generateShared prv (some other.point) 16 16 =
      .ok (toBytes 32 (curve.scalarMult other.point prv.d).x) := by
  obtain ⟨xSmall, _⟩ := lawful.multiple other.d prv.d
  obtain ⟨short, bytes⟩ := pad_minimal (Nat.lt_of_lt_of_le xSmall lawful.field)
  have fits : ¬16 + 16 < (minimal (curve.scalarMult other.point prv.d).x).length :=
    Nat.not_lt.mpr short
  rw [generateShared, if_neg (by decide)]
  dsimp only
  rw [if_neg fits]
  exact congrArg Except.ok bytes

theorem generate_shared_symmetric (lawful : Lawful curve) (prv other : PrivateKey curve) :
    generateShared prv (some other.point) 16 16 = generateShared other (some prv.point) 16 16 := by
  have same : curve.scalarMult other.point prv.d = curve.scalarMult prv.point other.d :=
    lawful.commutes other.d prv.d
  rw [generate_shared_base lawful, generate_shared_base lawful, same]

end Agreement

section Signatures

theorem verify_bounds {pub : PublicKey} {hash : List UInt8} {r s : Nat}
    (right : verify curve pub hash r s = .ok true) : r < curve.n ∧ s < curve.n := by
  unfold verify at right
  split_ifs at right with low high
  · cases right
  · cases right
  · omega

variable {v : List UInt8} {r s : Nat}

theorem sign_content_length (key : v.length = 65) (rSmall : r < 256 ^ 32) (sSmall : s < 256 ^ 32) :
    (element 0x04 v ++ element 0x02 (unsigned r) ++ element 0x02 (unsigned s)).length ≤ 137 := by
  have rShort := unsigned_length rSmall
  have sShort := unsigned_length sSmall
  rw [List.length_append, List.length_append, short_element_length _ (by omega),
    short_element_length _ (by omega), short_element_length _ (by omega)]
  omega

theorem sign_data_length (key : v.length = 65) (rSmall : r < 256 ^ 32) (sSmall : s < 256 ^ 32) :
    (signDigitToSignData v r s).length ≤ 140 := by
  have content := sign_content_length key rSmall sSmall
  have whole := element_length 0x30 (Nat.lt_of_le_of_lt content (by decide))
  rw [signDigitToSignData]
  omega

theorem sign_data_written (small : (element 0x04 v ++ element 0x02 (unsigned r) ++
      element 0x02 (unsigned s)).length < 2 ^ 31) :
    signDataToSignDigit (signDigitToSignData v r s) = some (v, (r : Int), (s : Int)) := by
  have inner := small
  rw [List.length_append, List.length_append] at inner
  have inside : ∀ (tag : UInt8) (content : List UInt8),
      (element tag content).length < 2 ^ 31 → content.length < 2 ^ 31 := by
    intro tag content whole
    rw [element, List.length_cons, List.length_append] at whole
    omega
  have outer := parse_element_written 0x30 small []
  have first := parse_element_written 0x04 (inside 0x04 v (by omega))
    (element 0x02 (unsigned r) ++ element 0x02 (unsigned s))
  have second := parse_element_written 0x02 (inside 0x02 (unsigned r) (by omega))
    (element 0x02 (unsigned s))
  have third := parse_element_written 0x02 (inside 0x02 (unsigned s) (by omega)) []
  rw [List.append_nil] at outer third
  rw [← List.append_assoc] at first
  simp only [signDataToSignDigit, signDigitToSignData, outer, first, second, third,
    parse_integer_unsigned, Option.bind_eq_bind, Option.bind_some, Option.pure_def]

theorem sign_digit_written (key : v.length = 65) (rSmall : r < 256 ^ 32) (sSmall : s < 256 ^ 32) :
    signDataToSignDigit (signDigitToSignData v r s) = some (v, (r : Int), (s : Int)) :=
  sign_data_written (Nat.lt_of_le_of_lt (sign_content_length key rSmall sSmall) (by decide))

end Signatures

end PbftBlock.Sm2
