import PbftBlock.Library.BigEndian

/-!
# The RLP encoder

The encoder collects all string data in one buffer and remembers for every list
where its header belongs and how large the list is; the headers are put in when
the buffer is written out.
-/

namespace PbftBlock.RlpEncoding

open PbftBlock.Library.BigEndian

set_option autoImplicit false

def putintSize (i : Nat) : Nat :=
  if i < 2 ^ 8 then 1
  else if i < 2 ^ 16 then 2
  else if i < 2 ^ 24 then 3
  else if i < 2 ^ 32 then 4
  else if i < 2 ^ 40 then 5
  else if i < 2 ^ 48 then 6
  else if i < 2 ^ 56 then 7
  else 8

def putint (i : Nat) : List UInt8 := toBytes (putintSize i) i

theorem putint_length (i : Nat) : (putint i).length = putintSize i := to_bytes_length _ _

theorem putint_size_bounds (i : Nat) : 1 ≤ putintSize i ∧ putintSize i ≤ 8 := by
  unfold putintSize
  split_ifs <;> omega

theorem putint_fits {i : Nat} (small : i < 2 ^ 64) : i < 256 ^ putintSize i := by
  unfold putintSize
  split_ifs <;> omega

theorem putint_needed {i : Nat} (large : 1 < putintSize i) : 256 ^ (putintSize i - 1) ≤ i := by
  revert large
  unfold putintSize
  split_ifs <;> omega

theorem of_bytes_putint {i : Nat} (small : i < 2 ^ 64) : ofBytes (putint i) = i :=
  of_bytes_to_bytes (putint_fits small)

theorem putint_leading {i : Nat} (small : i < 2 ^ 64) (large : 1 < putintSize i) :
    ∃ first rest, putint i = first :: rest ∧ first ≠ 0 := by
  obtain ⟨width, width_eq⟩ : ∃ width, putintSize i = width + 1 :=
    ⟨putintSize i - 1, by omega⟩
  have needed := putint_needed large
  have fits := putint_fits small
  rw [width_eq, Nat.add_sub_cancel] at needed
  rw [width_eq] at fits
  refine ⟨UInt8.ofNat (i / 256 ^ width), toBytes width i, ?_, to_bytes_leading needed fits⟩
  rw [putint, width_eq, toBytes]

def intsize (i : Nat) : Nat :=
  if i / 256 = 0 then 1 else intsize (i / 256) + 1
termination_by i
decreasing_by omega

def headsize (size : Nat) : Nat := if size < 56 then 1 else 1 + intsize size

def puthead (smalltag largetag : UInt8) (size : Nat) : List UInt8 :=
  if size < 56 then [smalltag + UInt8.ofNat size]
  else (largetag + UInt8.ofNat (putint size).length) :: putint size

structure ListHead where
  offset : Nat
  size : Nat
deriving DecidableEq

def ListHead.encode (head : ListHead) : List UInt8 := puthead 0xC0 0xF7 head.size

structure EncBuf where
  str : List UInt8 := []
  lheads : List ListHead := []
  lhsize : Nat := 0
deriving DecidableEq

def EncBuf.size (w : EncBuf) : Nat := w.str.length + w.lhsize

def EncBuf.append (w : EncBuf) (bytes : List UInt8) : EncBuf := { w with str := w.str ++ bytes }

/-- What `writeUint` appends. -/
def uintBytes (i : Nat) : List UInt8 :=
  if i = 0 then [0x80]
  else if i < 128 then [UInt8.ofNat i]
  else (0x80 + UInt8.ofNat (putint i).length) :: putint i

def writeUint (i : Nat) (w : EncBuf) : EncBuf := w.append (uintBytes i)

def stringHeader (size : Nat) : List UInt8 :=
  if size < 56 then [0x80 + UInt8.ofNat size]
  else (0xB7 + UInt8.ofNat (putint size).length) :: putint size

/-- What `encodeString` appends: a single small byte stands for itself. -/
def stringBytes (b : List UInt8) : List UInt8 :=
  if b.length = 1 ∧ b.headD 0 ≤ 0x7F then b
  else stringHeader b.length ++ b

def encodeString (b : List UInt8) (w : EncBuf) : EncBuf := w.append (stringBytes b)

/-- `list`: the header is the last one so far, and its `size` holds what the
headers before it take. -/
def EncBuf.list (w : EncBuf) : EncBuf :=
  { w with lheads := w.lheads ++ [⟨w.str.length, w.lhsize⟩] }

def EncBuf.listEnd (w : EncBuf) (index : Nat) : EncBuf :=
  let lh := w.lheads.getD index ⟨0, 0⟩
  let size := w.size - lh.offset - lh.size
  { w with
    lheads := w.lheads.set index ⟨lh.offset, size⟩
    lhsize := w.lhsize + headsize size }

def writeStruct (fields : List (EncBuf → EncBuf)) (w : EncBuf) : EncBuf :=
  (fields.foldl (fun w field => field w) w.list).listEnd w.lheads.length

/-- The pieces of the output from position `strpos` of the string data on. -/
def toBytesFrom (str : List UInt8) : Nat → List ListHead → List UInt8
  | strpos, [] => str.drop strpos
  | strpos, head :: heads =>
      (str.drop strpos).take (head.offset - strpos) ++ head.encode ++
        toBytesFrom str (max strpos head.offset) heads

def EncBuf.toBytes (w : EncBuf) : List UInt8 := toBytesFrom w.str 0 w.lheads

/-- The writes `toWriter` makes; empty pieces are not written. -/
def toWriterFrom (str : List UInt8) : Nat → List ListHead → List (List UInt8)
  | strpos, [] => if strpos < str.length then [str.drop strpos] else []
  | strpos, head :: heads =>
      (if 0 < head.offset - strpos then [(str.drop strpos).take (head.offset - strpos)] else []) ++
        [head.encode] ++ toWriterFrom str (max strpos head.offset) heads

def EncBuf.toWriter (w : EncBuf) : List (List UInt8) := toWriterFrom w.str 0 w.lheads

def encodeToBytes (writer : EncBuf → EncBuf) : List UInt8 := (writer {}).toBytes

def encode (writer : EncBuf → EncBuf) : List UInt8 := (writer {}).toWriter.flatten

theorem to_writer_flatten (str : List UInt8) (strpos : Nat) (heads : List ListHead) :
    (toWriterFrom str strpos heads).flatten = toBytesFrom str strpos heads := by
  induction heads generalizing strpos with
  | nil =>
      rw [toWriterFrom, toBytesFrom]
      split_ifs with more
      · rw [List.flatten_singleton]
      · rw [List.flatten_nil, List.drop_eq_nil_of_le (by omega)]
  | cons head heads induction =>
      rw [toWriterFrom, toBytesFrom, List.flatten_append, List.flatten_append,
        List.flatten_singleton, induction]
      split_ifs with gap
      · rw [List.flatten_singleton]
      · rw [List.flatten_nil, show head.offset - strpos = 0 by omega, List.take_zero]

theorem encode_eq (writer : EncBuf → EncBuf) : encode writer = encodeToBytes writer :=
  to_writer_flatten _ _ _

theorem encode_uint (i : Nat) : encodeToBytes (writeUint i) = uintBytes i := by
  simp [encodeToBytes, writeUint, EncBuf.append, EncBuf.toBytes, toBytesFrom]

theorem fold_append (pieces : List (List UInt8)) (w : EncBuf) :
    (pieces.map fun piece w => EncBuf.append w piece).foldl (fun w field => field w) w =
      w.append pieces.flatten := by
  induction pieces generalizing w with
  | nil => simp [EncBuf.append]
  | cons piece pieces induction =>
      rw [List.map_cons, List.foldl_cons, induction]
      simp [EncBuf.append, List.append_assoc]

theorem encode_flat_struct (pieces : List (List UInt8)) :
    encodeToBytes (writeStruct (pieces.map fun piece w => EncBuf.append w piece)) =
      puthead 0xC0 0xF7 pieces.flatten.length ++ pieces.flatten := by
  rw [encodeToBytes, writeStruct, fold_append]
  simp [EncBuf.list, EncBuf.append, EncBuf.listEnd, EncBuf.size, EncBuf.toBytes, toBytesFrom,
    ListHead.encode]

end PbftBlock.RlpEncoding
