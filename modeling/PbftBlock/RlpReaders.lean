import PbftBlock.RlpWriters

/-!
# Reading the encoder's output

`EncodeToReader` hands the buffer to a reader that puts the headers in while it is
read, in pieces of any size. All three routes out of the encoder give the recursive
encoding.
-/

namespace PbftBlock.RlpReaders

open PbftBlock.Library.Rlp PbftBlock.RlpTypes PbftBlock.RlpWriters
open PbftBlock.RlpEncoding hiding encodeToBytes encode

set_option autoImplicit false

/-- `buf` is `none` once the end was reached, and `piece` is what did not fit the
last time. -/
structure EncReader where
  buf : Option EncBuf
  lhpos : Nat := 0
  strpos : Nat := 0
  piece : Option (List UInt8) := none

def EncReader.next (r : EncReader) : Option (List UInt8) × EncReader :=
  match r.buf, r.piece with
  | none, _ => (none, r)
  | some _, some piece => (some piece, r)
  | some buf, none =>
      match buf.lheads[r.lhpos]? with
      | some head =>
          if r.strpos < head.offset then
            (some ((buf.str.drop r.strpos).take (head.offset - r.strpos)),
              { r with strpos := head.offset })
          else (some head.encode, { r with lhpos := r.lhpos + 1 })
      | none =>
          if r.strpos < buf.str.length then
            (some (buf.str.drop r.strpos), { r with strpos := buf.str.length })
          else (none, r)

def EncReader.stringAhead (r : EncReader) (buf : EncBuf) : Bool :=
  match buf.lheads[r.lhpos]? with
  | some head => r.strpos < head.offset
  | none => r.strpos < buf.str.length

def EncReader.left (r : EncReader) : Nat :=
  match r.buf with
  | none => 0
  | some buf =>
      2 * (buf.lheads.length - r.lhpos) + (if r.stringAhead buf then 1 else 0) +
        (if r.piece.isSome then 1 else 0)

/-- What the reader has still to deliver. -/
def EncReader.rest (r : EncReader) : List UInt8 :=
  match r.buf with
  | none => []
  | some buf => r.piece.getD [] ++ toBytesFrom buf.str r.strpos (buf.lheads.drop r.lhpos)

inductive Next (buf : EncBuf) (r : EncReader) : List UInt8 → EncReader → Prop where
  | kept {piece : List UInt8} (kept : r.piece = some piece) : Next buf r piece r
  | data {head : ListHead} (fresh : r.piece = none) (ahead : buf.lheads[r.lhpos]? = some head)
      (gap : r.strpos < head.offset) :
      Next buf r ((buf.str.drop r.strpos).take (head.offset - r.strpos))
        { r with strpos := head.offset }
  | header {head : ListHead} (fresh : r.piece = none) (ahead : buf.lheads[r.lhpos]? = some head)
      (gap : head.offset ≤ r.strpos) : Next buf r head.encode { r with lhpos := r.lhpos + 1 }
  | remainder (fresh : r.piece = none) (last : buf.lheads[r.lhpos]? = none)
      (more : r.strpos < buf.str.length) :
      Next buf r (buf.str.drop r.strpos) { r with strpos := buf.str.length }

theorem next_cases (r : EncReader) :
    (∃ buf piece r', r.next = (some piece, r') ∧ r.buf = some buf ∧ Next buf r piece r') ∨
      (r.next = (none, r) ∧ r.rest = []) := by
  obtain ⟨buf, lhpos, strpos, piece⟩ := r
  cases buf with
  | none =>
      right
      exact ⟨rfl, rfl⟩
  | some buf =>
      cases piece with
      | some piece =>
          left
          exact ⟨buf, piece, _, rfl, rfl, .kept rfl⟩
      | none =>
          cases ahead : buf.lheads[lhpos]? with
          | some head =>
              left
              by_cases gap : strpos < head.offset
              · refine ⟨buf, _, _, ?_, rfl, .data rfl ahead gap⟩
                simp only [EncReader.next, ahead, if_pos gap]
              · refine ⟨buf, _, _, ?_, rfl, .header rfl ahead (Nat.not_lt.mp gap)⟩
                simp only [EncReader.next, ahead, if_neg gap]
          | none =>
              by_cases more : strpos < buf.str.length
              · left
                refine ⟨buf, _, _, ?_, rfl, .remainder rfl ahead more⟩
                simp only [EncReader.next, ahead, if_pos more]
              · right
                have last : buf.lheads.drop lhpos = [] :=
                  List.drop_eq_nil_of_le (List.getElem?_eq_none_iff.mp ahead)
                refine ⟨by simp only [EncReader.next, ahead, if_neg more], ?_⟩
                simp only [EncReader.rest, last, toBytesFrom, Option.getD_none, List.nil_append]
                exact List.drop_eq_nil_of_le (Nat.not_lt.mp more)

theorem next_some {r r' : EncReader} {piece : List UInt8} (step : r.next = (some piece, r')) :
    ∃ buf, r.buf = some buf ∧ Next buf r piece r' := by
  rcases next_cases r with ⟨buf, piece', after, found, opened, next⟩ | ⟨found, _⟩
  · rw [step] at found
    cases found
    exact ⟨buf, opened, next⟩
  · rw [step] at found
    cases found

theorem next_left {r r' : EncReader} {piece : List UInt8} (step : r.next = (some piece, r')) :
    EncReader.left { r' with piece := none } < r.left := by
  obtain ⟨buf, opened, found⟩ := next_some step
  cases found with
  | kept kept =>
      simp only [EncReader.left, opened, kept, Option.isSome_some, Option.isSome_none]
      exact Nat.lt_succ_self _
  | data fresh ahead gap =>
      simp [EncReader.left, EncReader.stringAhead, opened, fresh, ahead, gap]
  | header fresh ahead gap =>
      have inside : r.lhpos < buf.lheads.length := (List.getElem?_eq_some_iff.mp ahead).1
      have here : r.left = 2 * (buf.lheads.length - r.lhpos) := by
        simp [EncReader.left, EncReader.stringAhead, opened, fresh, ahead, gap]
      rw [here]
      simp only [EncReader.left, opened, Option.isSome_none, Bool.false_eq_true, if_false]
      split_ifs <;> omega
  | remainder fresh last more =>
      simp [EncReader.left, EncReader.stringAhead, opened, fresh, last, more]

/-- `Read` into a buffer with `room` bytes: what was copied, and whether `io.EOF`
was returned. -/
def EncReader.read (r : EncReader) (room : Nat) : (List UInt8 × Bool) × EncReader :=
  match _step : r.next with
  | (none, r') => (([], true), { r' with buf := none, piece := none })
  | (some piece, r') =>
      if room < piece.length then
        ((piece.take room, false), { r' with piece := some (piece.drop room) })
      else
        let later := EncReader.read { r' with piece := none } (room - piece.length)
        ((piece ++ later.1.1, later.1.2), later.2)
termination_by r.left
decreasing_by exact next_left _step

def encodeToReader (ty : Ty) (v : ty.Value) : Except String (Nat × EncReader) :=
  (makeWriter ty v {}).map fun buf => (buf.size, { buf := some buf })

section Reads

theorem next_rest {r r' : EncReader} {piece : List UInt8} (step : r.next = (some piece, r')) :
    r.rest = piece ++ EncReader.rest { r' with piece := none } ∧ r'.buf.isSome := by
  obtain ⟨buf, opened, found⟩ := next_some step
  cases found with
  | kept kept => simp [EncReader.rest, opened, kept]
  | @data head fresh ahead gap =>
      obtain ⟨inside, here⟩ := List.getElem?_eq_some_iff.mp ahead
      have far : max r.strpos head.offset = head.offset := Nat.max_eq_right (Nat.le_of_lt gap)
      refine ⟨?_, by simp [opened]⟩
      simp only [EncReader.rest, opened, fresh, Option.getD_none, List.nil_append]
      rw [List.drop_eq_getElem_cons inside, here, toBytesFrom, toBytesFrom, far, Nat.max_self,
        Nat.sub_self, List.take_zero, List.nil_append, List.append_assoc]
  | @header head fresh ahead gap =>
      obtain ⟨inside, here⟩ := List.getElem?_eq_some_iff.mp ahead
      have near : max r.strpos head.offset = r.strpos := Nat.max_eq_left gap
      refine ⟨?_, by simp [opened]⟩
      simp only [EncReader.rest, opened, fresh, Option.getD_none, List.nil_append]
      rw [List.drop_eq_getElem_cons inside, here, toBytesFrom, near,
        Nat.sub_eq_zero_of_le gap, List.take_zero, List.nil_append]
  | remainder fresh last more =>
      have done : buf.lheads.drop r.lhpos = [] :=
        List.drop_eq_nil_of_le (List.getElem?_eq_none_iff.mp last)
      simp [EncReader.rest, opened, fresh, done, toBytesFrom]

theorem rest_with_piece {r : EncReader} (opened : r.buf.isSome) (piece : List UInt8) :
    EncReader.rest { r with piece := some piece } =
      piece ++ EncReader.rest { r with piece := none } := by
  obtain ⟨buf, present⟩ := Option.isSome_iff_exists.mp opened
  simp only [EncReader.rest, present, Option.getD_some, Option.getD_none, List.nil_append]

theorem read_rest (r : EncReader) (room : Nat) :
    (r.read room).1 = (r.rest.take room, decide (r.rest.length ≤ room)) ∧
      (r.read room).2.rest = r.rest.drop room := by
  fun_induction EncReader.read r room with
  | case1 r room r' step =>
      rcases next_cases r with ⟨_, _, _, found, _, _⟩ | ⟨_, empty⟩
      · rw [step] at found
        cases found
      · rw [empty, List.drop_nil]
        exact ⟨by simp, rfl⟩
  | case2 r room piece r' step short =>
      obtain ⟨split, opened⟩ := next_rest step
      rw [rest_with_piece opened, split, List.take_append_of_le_length (Nat.le_of_lt short),
        List.drop_append_of_le_length (Nat.le_of_lt short), List.length_append]
      refine ⟨?_, rfl⟩
      rw [decide_eq_false (by omega)]
  | case3 r room piece r' step fits later induction =>
      obtain ⟨split, _⟩ := next_rest step
      have long : piece.length ≤ room := Nat.not_lt.mp fits
      obtain ⟨copied, left⟩ := induction
      rw [split, List.take_append, List.drop_append, List.take_of_length_le long,
        List.drop_of_length_le long, List.length_append]
      refine ⟨?_, left⟩
      rw [copied]
      have same : (EncReader.rest { r' with piece := none }).length ≤ room - piece.length ↔
          piece.length + (EncReader.rest { r' with piece := none }).length ≤ room := by omega
      simp only [same]

def EncReader.after (r : EncReader) : List Nat → EncReader
  | [] => r
  | room :: rooms => (r.read room).2.after rooms

def EncReader.copied (r : EncReader) : List Nat → List UInt8
  | [] => []
  | room :: rooms => (r.read room).1.1 ++ (r.read room).2.copied rooms

theorem after_rest (r : EncReader) (rooms : List Nat) :
    (r.after rooms).rest = r.rest.drop rooms.sum := by
  induction rooms generalizing r with
  | nil => rfl
  | cons room rooms induction =>
      rw [EncReader.after, induction, (read_rest r room).2, List.drop_drop, List.sum_cons]

theorem copied_rest (r : EncReader) (rooms : List Nat) :
    r.copied rooms = r.rest.take rooms.sum := by
  induction rooms generalizing r with
  | nil => rfl
  | cons room rooms induction =>
      obtain ⟨first, left⟩ := read_rest r room
      rw [EncReader.copied, induction, first, left, List.sum_cons, List.take_add]

end Reads

section Routes

def maxInt : Nat := 2 ^ 63 - 1

/-- The reader delivers the bytes, whatever the sizes of the buffers it is read
into, and tells the end with the last of them. -/
structure Delivers (size : Nat) (r : EncReader) (bytes : List UInt8) : Prop where
  announced : size = bytes.length
  copied : ∀ rooms, r.copied rooms = bytes.take rooms.sum
  next : ∀ rooms room, ((r.after rooms).read room).1 =
    ((bytes.drop rooms.sum).take room, decide (bytes.length ≤ rooms.sum + room))

theorem reader_delivers {buf : EncBuf} {bytes : List UInt8} (wrote : Wrote {} bytes buf) :
    Delivers buf.size { buf := some buf } bytes := by
  have whole : EncReader.rest { buf := some buf } = bytes := to_bytes_wrote wrote
  constructor
  case announced => exact size_wrote wrote
  case copied =>
    intro rooms
    rw [copied_rest, whole]
  case next =>
    intro rooms room
    have same : bytes.length - rooms.sum ≤ room ↔ bytes.length ≤ rooms.sum + room := by omega
    rw [(read_rest _ _).1, after_rest, whole, List.length_drop]
    simp only [same]

theorem encode_to_bytes_rlp {ty : Ty} {v : ty.Value} (positive : ty.NonNegative v)
    (addressable : (ty.rlp v).length ≤ maxInt) : encodeToBytes ty v = .ok (ty.rlp v) := by
  have small : (ty.rlp v).length < 2 ^ 64 := Nat.lt_of_le_of_lt addressable (by decide)
  obtain ⟨buf, ran, wrote⟩ := writer_writes.1 ty v positive small {}
  rw [encodeToBytes, ran]
  exact congrArg Except.ok (to_bytes_wrote wrote)

/-- All routes out of the encoder give the recursive encoding. -/
theorem encoder_routes_agree (ty : Ty) (v : ty.Value) (positive : ty.NonNegative v)
    (addressable : (ty.rlp v).length ≤ maxInt) :
    encodeToBytes ty v = .ok (ty.rlp v) ∧
      (∃ writes, encode ty v = .ok writes ∧ writes.flatten = ty.rlp v) ∧
      ∃ size r, encodeToReader ty v = .ok (size, r) ∧ Delivers size r (ty.rlp v) := by
  have small : (ty.rlp v).length < 2 ^ 64 := Nat.lt_of_le_of_lt addressable (by decide)
  obtain ⟨buf, ran, wrote⟩ := writer_writes.1 ty v positive small {}
  refine ⟨encode_to_bytes_rlp positive addressable, ⟨buf.toWriter, ?_, ?_⟩, buf.size,
    { buf := some buf }, ?_, reader_delivers wrote⟩
  · rw [encode, ran]
    rfl
  · rw [EncBuf.toWriter, to_writer_flatten]
    exact to_bytes_wrote wrote
  · rw [encodeToReader, ran]
    rfl

abbrev sampleTy : Ty :=
  .struct "sample" (.field "Nonce" (.uint .w64) (.field "Amount" .bigInt (.field "Paid" .bool
    (.field "Path" (.slice (.slice (.uint .w16))) (.tail "Notes" .string)))))

def sample : sampleTy.Value := (1000, 256, true, [[1, 300], []], [[0x61], []])

theorem sample_non_negative : sampleTy.NonNegative sample := by
  simp [Ty.NonNegative, Fields.NonNegative, sample]

theorem sample_rlp : sampleTy.rlp sample =
    [0xD0, 0x82, 0x03, 0xE8, 0x82, 0x01, 0x00, 0x01,
      0xC6, 0xC4, 0x01, 0x82, 0x01, 0x2C, 0xC0, 0x61, 0x80] := by
  decide +kernel

theorem encoder_routes_agree_on_sample :
    sampleTy.NonNegative sample ∧
      encodeToBytes sampleTy sample = .ok [0xD0, 0x82, 0x03, 0xE8, 0x82, 0x01, 0x00, 0x01,
        0xC6, 0xC4, 0x01, 0x82, 0x01, 0x2C, 0xC0, 0x61, 0x80] ∧
      ∃ size r, encodeToReader sampleTy sample = .ok (size, r) ∧
        Delivers size r (sampleTy.rlp sample) := by
  have short : (sampleTy.rlp sample).length ≤ maxInt := by
    rw [sample_rlp]
    decide
  obtain ⟨bytes, _, reader⟩ := encoder_routes_agree sampleTy sample sample_non_negative short
  rw [sample_rlp] at bytes
  exact ⟨sample_non_negative, bytes, reader⟩

end Routes

end PbftBlock.RlpReaders
