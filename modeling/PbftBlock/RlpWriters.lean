import PbftBlock.RlpEncoding
import PbftBlock.RlpTypes

/-!
# The writers of the RLP encoder

Every type has a writer, which appends to the buffer of the encoder. What a writer
does to a buffer is said by `Wrote`: whatever is written later, the output between
the two buffers is the recursive encoding of the value.
-/

namespace PbftBlock.RlpWriters

open PbftBlock.Library.BigEndian PbftBlock.Library.Rlp PbftBlock.RlpEncoding PbftBlock.RlpTypes

set_option autoImplicit false

section Headers

theorem minimal_length_pos {i : Nat} (positive : 0 < i) : 0 < (minimal i).length := by
  obtain ⟨first, more, bytes, _⟩ := minimal_leading (Nat.ne_of_gt positive)
  rw [bytes, List.length_cons]
  exact Nat.succ_pos _

theorem intsize_minimal {i : Nat} (positive : 0 < i) : intsize i = (minimal i).length := by
  induction i using Nat.strong_induction_on with
  | _ i induction =>
      rw [intsize, minimal, if_neg (Nat.ne_of_gt positive), List.length_append,
        List.length_singleton]
      split_ifs with last
      · rw [last, minimal, if_pos rfl, List.length_nil]
      · rw [induction (i / 256) (by omega) (by omega)]

theorem putint_size_minimal {i : Nat} (positive : 0 < i) (small : i < 2 ^ 64) :
    putintSize i = (minimal i).length := by
  have fits := (minimal_length_le_iff _ _).mpr (putint_fits small)
  have some := minimal_length_pos positive
  have bounds := putint_size_bounds i
  by_cases single : putintSize i = 1
  · omega
  · have needed := putint_needed (show 1 < putintSize i by omega)
    have long := (minimal_length_le_iff (putintSize i - 1) i).not.mpr (Nat.not_lt.mpr needed)
    omega

theorem putint_minimal {i : Nat} (positive : 0 < i) (small : i < 2 ^ 64) :
    putint i = minimal i := by
  have padded := (pad_minimal (putint_fits small)).2
  rw [putint_size_minimal positive small, Nat.sub_self, List.replicate_zero,
    List.nil_append] at padded
  rw [putint, putint_size_minimal positive small, ← padded]

theorem headsize_header (tag size : Nat) : headsize size = (header tag size).length := by
  rw [headsize, header_length]
  split_ifs
  · rfl
  · omega
  · omega
  · rw [intsize_minimal (by omega), Nat.add_comm]

theorem puthead_header {size : Nat} (small : size < 2 ^ 64) :
    puthead 0xC0 0xF7 size = header 0xC0 size := by
  rw [puthead, header]
  split_ifs
  · rw [UInt8.ofNat_add]
    rfl
  · omega
  · omega
  · rw [putint_minimal (by omega) small, UInt8.ofNat_add]
    rfl

theorem string_header {size : Nat} (small : size < 2 ^ 64) :
    stringHeader size = header 0x80 size := by
  rw [stringHeader, header]
  split_ifs
  · rw [UInt8.ofNat_add]
    rfl
  · omega
  · omega
  · rw [putint_minimal (by omega) small, UInt8.ofNat_add]
    rfl

theorem byte_le_iff (b : UInt8) : b ≤ 0x7F ↔ b < 0x80 := by
  rw [UInt8.le_iff_toNat_le, UInt8.lt_iff_toNat_lt]
  exact Nat.lt_succ_iff.symm

theorem string_bytes_string {b : List UInt8} (small : b.length < 2 ^ 64) :
    stringBytes b = string b := by
  rw [stringBytes, string, string_header small]
  simp only [byte_le_iff]

theorem uint_bytes_number {i : Nat} (small : i < 2 ^ 64) : uintBytes i = number i := by
  rw [uintBytes, number]
  split_ifs with zero single
  · rw [zero, minimal, if_pos rfl]
    rfl
  · rw [minimal_byte (by omega) (by omega), string, if_pos ⟨rfl, (byte_of_small single).2⟩]
  · have several : ¬((minimal i).length = 1 ∧ (minimal i).headD 0 < 0x80) := by
      rintro ⟨one, low⟩
      have fits := (minimal_length_le_iff 1 i).mp (Nat.le_of_eq one)
      rw [minimal_byte (by omega) (by omega), List.headD_cons, UInt8.lt_iff_toNat_lt,
        UInt8.toNat_ofNat'] at low
      have bound : i % 256 < 128 := low
      omega
    have width := putint_size_bounds i
    rw [putint_size_minimal (by omega) small] at width
    rw [string, if_neg several, header, if_pos (by omega), putint_minimal (by omega) small,
      UInt8.ofNat_add]
    rfl

end Headers

abbrev Writer := EncBuf → Except String EncBuf

def writeBool (b : Bool) (w : EncBuf) : EncBuf := w.append [if b then 0x01 else 0x80]

def writeBigInt (i : Int) : Writer := fun w =>
  if i < 0 then .error "rlp: cannot encode negative *big.Int"
  else if i = 0 then .ok (w.append [0x80])
  else .ok (encodeString (minimal i.natAbs) w)

def writeRawValue (raw : List UInt8) : Writer := fun w => .ok (w.append raw)

def writeBytes (b : List UInt8) (w : EncBuf) : EncBuf := encodeString b w

def writeByteArray (b : List UInt8) (w : EncBuf) : EncBuf := encodeString b w

def writeString (s : List UInt8) (w : EncBuf) : EncBuf := w.append (stringBytes s)

def writeElems {α : Type} (elem : α → Writer) : List α → Writer
  | [], w => .ok w
  | v :: vs, w => elem v w >>= writeElems elem vs

/-- The frame of the writers of slices and structs: a list header around what
`elems` writes. -/
def writeList (elems : Writer) : Writer := fun w =>
  (elems w.list).map fun inner => inner.listEnd w.lheads.length

mutual
/-- The writer of a type. A slice with the tag `tail` has no header of its own, but
a byte slice ignores the tag. -/
def makeWriter : (ty : Ty) → ty.Value → Writer
  | .uint width, v => fun w => .ok (writeUint (width.toNat v) w)
  | .bool, v => fun w => .ok (writeBool v w)
  | .string, v => fun w => .ok (writeString v w)
  | .bigInt, v => writeBigInt v
  | .byteArray _, v => fun w => .ok (writeByteArray v.1 w)
  | .slice (.uint .w8), v => fun w => .ok (writeBytes v w)
  | .slice elem, v => writeList (writeElems (makeWriter elem) v)
  | .struct _ fields, v => writeList (writeFields fields v)
def writeFields : (fields : Fields) → fields.Value → Writer
  | .done, _ => fun w => .ok w
  | .tail _ (.uint .w8), v => fun w => .ok (writeBytes v w)
  | .tail _ elem, v => writeElems (makeWriter elem) v
  | .field _ ty rest, v => fun w => makeWriter ty v.1 w >>= writeFields rest v.2
end

def encodeToBytes (ty : Ty) (v : ty.Value) : Except String (List UInt8) :=
  (makeWriter ty v {}).map EncBuf.toBytes

def encode (ty : Ty) (v : ty.Value) : Except String (List (List UInt8)) :=
  (makeWriter ty v {}).map EncBuf.toWriter

section Buffers

/-- Between the two buffers, `data` and `heads` were added, and they stand for
`bytes` in the output. -/
structure Added (w : EncBuf) (data : List UInt8) (heads : List ListHead) (bytes : List UInt8)
    (w' : EncBuf) : Prop where
  str : w'.str = w.str ++ data
  lheads : w'.lheads = w.lheads ++ heads
  size : w'.size = w.size + bytes.length
  behind : ∀ head ∈ heads, w.str.length ≤ head.offset
  output : ∀ more later, (∀ head ∈ later, w'.str.length ≤ head.offset) →
    toBytesFrom (w'.str ++ more) w.str.length (heads ++ later) =
      bytes ++ toBytesFrom (w'.str ++ more) w'.str.length later

def Wrote (w : EncBuf) (bytes : List UInt8) (w' : EncBuf) : Prop :=
  ∃ data heads, Added w data heads bytes w'

variable {w w' w'' : EncBuf} {bytes other : List UInt8}

theorem to_bytes_from_append (before data more : List UInt8) (later : List ListHead)
    (behind : ∀ head ∈ later, (before ++ data).length ≤ head.offset) :
    toBytesFrom (before ++ data ++ more) before.length later =
      data ++ toBytesFrom (before ++ data ++ more) (before ++ data).length later := by
  cases later with
  | nil => simp [toBytesFrom]
  | cons head later =>
      have after := behind head List.mem_cons_self
      rw [List.length_append] at after
      have gap : head.offset - before.length =
          data.length + (head.offset - (before.length + data.length)) := by omega
      have far : max before.length head.offset = max (before.length + data.length) head.offset := by
        omega
      have rest : (before ++ data ++ more).drop before.length = data ++ more := by
        rw [List.append_assoc, List.drop_left]
      rw [toBytesFrom, toBytesFrom, List.length_append, rest, gap, far, List.take_length_add_append,
        ← List.length_append, List.drop_left, List.append_assoc data, List.append_assoc data]

theorem wrote_append (w : EncBuf) (data : List UInt8) : Wrote w data (w.append data) := by
  refine ⟨data, [], rfl, (List.append_nil _).symm, ?_, ?_, ?_⟩
  · simp only [EncBuf.size, EncBuf.append, List.length_append]
    omega
  · intro head member
    cases member
  · intro more later behind
    exact to_bytes_from_append w.str data more later behind

theorem wrote_nothing (w : EncBuf) : Wrote w [] w := by
  refine ⟨[], [], (List.append_nil _).symm, (List.append_nil _).symm, rfl, ?_, ?_⟩
  · intro head member
    cases member
  · intro more later _
    rfl

theorem wrote_trans (first : Wrote w bytes w') (second : Wrote w' other w'') :
    Wrote w (bytes ++ other) w'' := by
  obtain ⟨data, heads, added⟩ := first
  obtain ⟨data', heads', added'⟩ := second
  refine ⟨data ++ data', heads ++ heads', ?_, ?_, ?_, ?_, ?_⟩
  · rw [added'.str, added.str, List.append_assoc]
  · rw [added'.lheads, added.lheads, List.append_assoc]
  · rw [added'.size, added.size, List.length_append, Nat.add_assoc]
  · intro head member
    rcases List.mem_append.mp member with member | member
    · exact added.behind head member
    · have behind := added'.behind head member
      rw [added.str, List.length_append] at behind
      omega
  · intro more later behind
    have grown : w''.str.length = w'.str.length + data'.length := by
      rw [added'.str, List.length_append]
    -- the first part sees the data and headers of the second as later ones
    have front := added.output (data' ++ more) (heads' ++ later) (by
      intro head member
      rcases List.mem_append.mp member with member | member
      · exact added'.behind head member
      · have after := behind head member
        omega)
    rw [← List.append_assoc, ← added'.str] at front
    rw [List.append_assoc heads, front, added'.output more later behind, List.append_assoc]

theorem wrote_list (small : bytes.length < 2 ^ 64) (inner : Wrote w.list bytes w') :
    Wrote w (header 0xC0 bytes.length ++ bytes) (w'.listEnd w.lheads.length) := by
  obtain ⟨data, heads, added⟩ := inner
  have opened : w'.lheads = w.lheads ++ ⟨w.str.length, w.lhsize⟩ :: heads := by
    rw [added.lheads, EncBuf.list, List.append_assoc, List.singleton_append]
  have lh : w'.lheads.getD w.lheads.length ⟨0, 0⟩ = ⟨w.str.length, w.lhsize⟩ := by
    simp [opened, List.getD]
  have total : w'.size = w.size + bytes.length := added.size
  have measured : w'.size - w.str.length - w.lhsize = bytes.length := by
    rw [total, EncBuf.size]
    omega
  have patched : (w'.listEnd w.lheads.length).lheads =
      w.lheads ++ ⟨w.str.length, bytes.length⟩ :: heads := by
    rw [EncBuf.listEnd]
    dsimp only
    rw [lh]
    dsimp only
    rw [measured, opened, List.set_append_right _ _ (Nat.le_refl _), Nat.sub_self, List.set_cons_zero]
  have kept : (w'.listEnd w.lheads.length).str = w'.str := rfl
  refine ⟨data, ⟨w.str.length, bytes.length⟩ :: heads, added.str, patched, ?_, ?_, ?_⟩
  · have grown : (w'.listEnd w.lheads.length).lhsize = w'.lhsize + headsize bytes.length := by
      rw [EncBuf.listEnd]
      dsimp only
      rw [lh]
      dsimp only
      rw [measured]
    rw [EncBuf.size] at total
    rw [EncBuf.size, grown, kept, headsize_header 0xC0, List.length_append]
    omega
  · intro head member
    rcases List.mem_cons.mp member with rfl | member
    · exact Nat.le_refl _
    · exact added.behind head member
  · intro more later behind
    have output := added.output more later behind
    rw [kept, List.cons_append, toBytesFrom, Nat.sub_self, List.take_zero, List.nil_append,
      Nat.max_self, ListHead.encode, puthead_header small, List.append_assoc]
    exact congrArg _ output

theorem to_bytes_wrote (wrote : Wrote {} bytes w') : w'.toBytes = bytes := by
  obtain ⟨data, heads, added⟩ := wrote
  have output := added.output [] [] (by
    intro head member
    cases member)
  have all : w'.lheads = heads := added.lheads
  rw [List.append_nil, List.append_nil, toBytesFrom, List.drop_length, List.append_nil] at output
  rw [EncBuf.toBytes, all]
  exact output

theorem size_wrote (wrote : Wrote {} bytes w') : w'.size = bytes.length := by
  obtain ⟨data, heads, added⟩ := wrote
  have grown := added.size
  rw [grown]
  exact Nat.zero_add _

end Buffers

section Values

/-- On every buffer the writer succeeds and has written the bytes. -/
def Writes (writer : Writer) (bytes : List UInt8) : Prop :=
  ∀ w, ∃ w', writer w = .ok w' ∧ Wrote w bytes w'

theorem writes_append (bytes : List UInt8) : Writes (fun w => .ok (w.append bytes)) bytes := by
  intro w
  exact ⟨_, rfl, wrote_append w bytes⟩

theorem writes_then {first second : Writer} {bytes other : List UInt8}
    (head : Writes first bytes) (tail : Writes second other) :
    Writes (fun w => first w >>= second) (bytes ++ other) := by
  intro w
  obtain ⟨w', ran, wrote⟩ := head w
  obtain ⟨w'', ran', wrote'⟩ := tail w'
  refine ⟨w'', ?_, wrote_trans wrote wrote'⟩
  dsimp only
  rw [ran]
  exact ran'

theorem writes_list {elems : Writer} {parts : List (List UInt8)}
    (small : parts.flatten.length < 2 ^ 64) (inner : Writes elems parts.flatten) :
    Writes (writeList elems) (list parts) := by
  intro w
  obtain ⟨w', ran, wrote⟩ := inner w.list
  refine ⟨w'.listEnd w.lheads.length, ?_, wrote_list small wrote⟩
  rw [writeList, ran]
  rfl

theorem writes_elems {α : Type} {elem : α → Writer} {rlp : α → List UInt8} {vs : List α}
    (each : ∀ v ∈ vs, Writes (elem v) (rlp v)) :
    Writes (writeElems elem vs) (vs.map rlp).flatten := by
  induction vs with
  | nil =>
      intro w
      exact ⟨w, rfl, wrote_nothing w⟩
  | cons v vs induction =>
      have first := each v List.mem_cons_self
      have later := induction fun v' member => each v' (List.mem_cons_of_mem v member)
      rw [List.map_cons, List.flatten_cons]
      exact writes_then first later

theorem writes_string {b : List UInt8} (small : (string b).length < 2 ^ 64) :
    Writes (fun w => .ok (encodeString b w)) (string b) := by
  have content := string_length_ge b
  rw [← string_bytes_string (by omega)]
  exact writes_append _

theorem writes_uint {i : Nat} (small : i < 2 ^ 64) :
    Writes (fun w => .ok (writeUint i w)) (number i) := by
  rw [← uint_bytes_number small]
  exact writes_append _

theorem writes_bool (b : Bool) : Writes (fun w => .ok (writeBool b w)) (number b.toNat) := by
  have bytes : number b.toNat = [if b then 0x01 else 0x80] := by
    cases b <;> decide +kernel
  rw [bytes]
  exact writes_append _

theorem writes_big_int {i : Int} (positive : 0 ≤ i) (small : (number i.toNat).length < 2 ^ 64) :
    Writes (writeBigInt i) (number i.toNat) := by
  have sign : ¬i < 0 := Int.not_lt.mpr positive
  by_cases zero : i = 0
  · subst zero
    have empty : number (Int.toNat 0) = [0x80] := by decide +kernel
    rw [empty]
    exact writes_append _
  · have same : i.toNat = i.natAbs := by omega
    have body : writeBigInt i = fun w => .ok (encodeString (minimal i.natAbs) w) := by
      funext w
      rw [writeBigInt, if_neg sign, if_neg zero]
    rw [same, number] at small ⊢
    rw [body]
    exact writes_string small

section Slices

variable {elem : Ty} (notByte : elem ≠ .uint .w8)

include notByte

theorem writer_slice (v : List elem.Value) :
    makeWriter (.slice elem) v = writeList (writeElems (makeWriter elem) v) := by
  rw [makeWriter]
  exact fun _ _ byte => notByte byte

theorem writer_tail (name : String) (v : List elem.Value) :
    writeFields (.tail name elem) v = writeElems (makeWriter elem) v := by
  rw [writeFields]
  exact fun _ byte _ => notByte byte

end Slices

theorem part_length_le {parts : List (List UInt8)} {part : List UInt8} (member : part ∈ parts) :
    part.length ≤ parts.flatten.length :=
  (List.sublist_flatten_of_mem member).length_le

theorem payload_length_lt (parts : List (List UInt8)) :
    parts.flatten.length < (list parts).length := by
  have front := header_length_pos 0xC0 parts.flatten.length
  rw [list_length]
  omega

/-- The writer of a type writes the recursive encoding of each of its values. -/
theorem writer_writes :
    (∀ ty v, Ty.NonNegative ty v → (ty.rlp v).length < 2 ^ 64 →
      Writes (makeWriter ty v) (ty.rlp v)) ∧
    (∀ fields v, Fields.NonNegative fields v → (fields.rlp v).flatten.length < 2 ^ 64 →
      Writes (writeFields fields v) (fields.rlp v).flatten) := by
  apply type_induction
  case uint =>
    intro width v _ _
    have bound := width_to_nat_lt width v
    have narrow := Nat.pow_le_pow_right (show 0 < 2 by decide) (width_bits_le width)
    exact writes_uint (by omega)
  case bool =>
    intro v _ _
    exact writes_bool v
  case string =>
    intro v _ small
    exact writes_string small
  case bigInt =>
    intro v positive small
    exact writes_big_int positive small
  case byteArray =>
    intro n v _ small
    exact writes_string small
  case slice =>
    intro elem induction v positive small
    by_cases byte : elem = .uint .w8
    · subst byte
      exact writes_string small
    · rw [writer_slice byte, rlp_slice byte]
      rw [rlp_slice byte] at small
      have payload := payload_length_lt (v.map elem.rlp)
      apply writes_list (by omega)
      apply writes_elems
      intro value member
      have part := part_length_le (List.mem_map_of_mem (f := elem.rlp) member)
      exact induction value (positive value member) (by omega)
  case struct =>
    intro name fields induction v positive small
    have payload := payload_length_lt (fields.rlp v)
    have bound : (list (fields.rlp v)).length < 2 ^ 64 := small
    apply writes_list (by omega)
    exact induction v positive (by omega)
  case done =>
    intro v _ _ w
    exact ⟨w, rfl, wrote_nothing w⟩
  case tail =>
    intro name elem induction v positive small
    by_cases byte : elem = .uint .w8
    · subst byte
      have parts : ((Fields.tail name (.uint .w8)).rlp v).flatten = string v :=
        List.flatten_singleton
      rw [parts] at small ⊢
      exact writes_string small
    · rw [writer_tail byte, rlp_tail byte]
      rw [rlp_tail byte] at small
      apply writes_elems
      intro value member
      have part := part_length_le (List.mem_map_of_mem (f := elem.rlp) member)
      exact induction value (positive value member) (by omega)
  case field =>
    intro name ty rest head tail v positive small
    have parts : ((Fields.field name ty rest).rlp v).flatten =
        ty.rlp v.1 ++ (rest.rlp v.2).flatten := rfl
    rw [parts] at small ⊢
    rw [List.length_append] at small
    have first := head v.1 positive.1 (by omega)
    have later := tail v.2 positive.2 (by omega)
    exact writes_then first later

end Values

end PbftBlock.RlpWriters
