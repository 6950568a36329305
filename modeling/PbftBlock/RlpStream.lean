import PbftBlock.Library.FallibleMethods
import PbftBlock.RlpEncoding

/-!
# The RLP stream reader

`Stream` reads one value after another from a byte reader. `Kind` reads a header
and remembers it until the value is read; inside a list every read is charged to
the innermost list. The second half says what the reader does on what the encoder
wrote.
-/

namespace PbftBlock.RlpStream

open PbftBlock.Library.BigEndian PbftBlock.Library.FallibleMethods PbftBlock.RlpEncoding

set_option autoImplicit false

inductive Kind where
  | byte
  | string
  | list
deriving DecidableEq

/-- The errors of the package and of its reader. `endless` is none of them: it stands
for a loop over the elements of a slice that was given up. -/
inductive RlpError where
  | eol
  | expectedString
  | expectedList
  | canonInt
  | canonSize
  | elemTooLarge
  | valueTooLarge
  | notInList
  | notAtEOL
  | uintOverflow
  | eof
  | unexpectedEOF
  | moreThanOneValue
  | invalidBool (num : Nat)
  | decode (msg typ : String) (ctx : List String)
  | endless
deriving DecidableEq

def RlpError.text : RlpError → String
  | .eol => "rlp: end of list"
  | .expectedString => "rlp: expected String or Byte"
  | .expectedList => "rlp: expected List"
  | .canonInt => "rlp: non-canonical integer format"
  | .canonSize => "rlp: non-canonical size information"
  | .elemTooLarge => "rlp: element is larger than containing list"
  | .valueTooLarge => "rlp: value size exceeds available input length"
  | .notInList => "rlp: call of ListEnd outside of any list"
  | .notAtEOL => "rlp: call of ListEnd not positioned at EOL"
  | .uintOverflow => "rlp: uint overflow"
  | .eof => "EOF"
  | .unexpectedEOF => "unexpected EOF"
  | .moreThanOneValue => "rlp: input contains more than one value"
  | .invalidBool num => "rlp: invalid boolean value: " ++ toString num
  | .endless => "runtime: out of memory"
  | .decode msg typ ctx =>
      "rlp: " ++ msg ++ " for " ++ typ ++
        (if ctx.isEmpty then "" else ", decoding into " ++ String.join ctx.reverse)

structure ListPos where
  pos : Nat
  size : Nat
deriving DecidableEq

/-- `kind` is `none` when the next `Kind` has to read a header; the innermost list
is the first of `stack`. -/
structure Stream where
  r : List UInt8
  remaining : Nat
  limited : Bool
  kind : Option Kind := none
  size : Nat := 0
  byteval : UInt8 := 0
  kinderr : Option RlpError := none
  stack : List ListPos := []
deriving DecidableEq

abbrev StreamM (α : Type) := Fallible RlpError Stream α

/-- `NewStream` over a `bytes.Reader`, whose length is the limit unless one is
given. -/
def newStream (r : List UInt8) (inputLimit : Nat) : Stream where
  r := r
  remaining := if 0 < inputLimit then inputLimit else r.length
  limited := true

def charge (stack : List ListPos) (n : Nat) : List ListPos :=
  match stack with
  | [] => []
  | tos :: outer => { tos with pos := tos.pos + n } :: outer

def overflows (stack : List ListPos) (n : Nat) : Bool :=
  match stack with
  | [] => false
  | tos :: _ => tos.size - tos.pos < n

def willRead (n : Nat) : StreamM Unit := fun s =>
  let s := { s with kind := none }
  if overflows s.stack n then .error .elemTooLarge s
  else
    let s := { s with stack := charge s.stack n }
    if s.limited then
      if s.remaining < n then .error .valueTooLarge s
      else .ok () { s with remaining := s.remaining - n }
    else .ok () s

def readFull (n : Nat) : StreamM (List UInt8) := fun s =>
  match willRead n s with
  | .error err s => .error err s
  | .ok _ s =>
      if s.r.length < n then .error .unexpectedEOF { s with r := [] }
      else .ok (s.r.take n) { s with r := s.r.drop n }

def readByte : StreamM UInt8 := fun s =>
  match willRead 1 s with
  | .error err s => .error err s
  | .ok _ s =>
      match s.r with
      | [] => .error .unexpectedEOF s
      | b :: rest => .ok b { s with r := rest }

def readUint (size : Nat) : StreamM Nat := fun s =>
  match size with
  | 0 => .ok 0 { s with kind := none }
  | 1 =>
      match readByte s with
      | .error err s => .error err s
      | .ok b s => .ok b.toNat s
  | size =>
      match readFull size s with
      | .error err s => .error err s
      | .ok bytes s => if bytes.headD 0 = 0 then .error .canonSize s else .ok (ofBytes bytes) s

/-- The end of the input is told apart from a broken value only at top level. -/
def atToplevel (s : Stream) (err : RlpError) : RlpError :=
  if s.stack.isEmpty ∧ (err = .unexpectedEOF ∨ err = .valueTooLarge) then .eof else err

def readSize (kind : Kind) (width : Nat) (s : Stream) : (Kind × Nat × Option RlpError) × Stream :=
  match readUint width s with
  | .error err s => ((kind, 0, some err), s)
  | .ok size s => ((kind, size, if size < 56 then some .canonSize else none), s)

def readKind (s : Stream) : (Kind × Nat × Option RlpError) × Stream :=
  match readByte s with
  | .error err s => ((.byte, 0, some (atToplevel s err)), s)
  | .ok b s =>
      let s := { s with byteval := 0 }
      if b < 0x80 then ((.byte, 0, none), { s with byteval := b })
      else if b < 0xB8 then ((.string, (b - 0x80).toNat, none), s)
      else if b < 0xC0 then readSize .string (b - 0xB7).toNat s
      else if b < 0xF8 then ((.list, (b - 0xC0).toNat, none), s)
      else readSize .list (b - 0xF7).toNat s

def atListEnd (stack : List ListPos) : Bool :=
  match stack with
  | [] => false
  | tos :: _ => tos.pos = tos.size

def sizeError (s : Stream) (size : Nat) : Option RlpError :=
  if s.stack.isEmpty then
    if s.limited ∧ s.remaining < size then some .valueTooLarge else none
  else if overflows s.stack size then some .elemTooLarge
  else none

def cachedKind : StreamM (Kind × Nat) := fun s =>
  match s.kinderr with
  | some err => .error err s
  | none => .ok (s.kind.getD .byte, s.size) s

def Stream.nextKind : StreamM (Kind × Nat) := fun s =>
  if s.kind.isSome then cachedKind s
  else
    let s := { s with kinderr := none }
    if atListEnd s.stack then .error .eol s
    else
      let header := readKind s
      let s := header.2
      cachedKind
        { s with
          kind := some header.1.1
          size := header.1.2.1
          kinderr := header.1.2.2.or (sizeError s header.1.2.1) }

/-- The single byte of the header; the next `Kind` reads a new one. -/
def singleByte (s : Stream) : EStateM.Result RlpError Stream (List UInt8) :=
  .ok [s.byteval] { s with kind := none }

def Stream.bytes : StreamM (List UInt8) :=
  andThen Stream.nextKind fun (kind, size) =>
    match kind with
    | .byte => singleByte
    | .string => andThen (readFull size) fun b s =>
        if size = 1 ∧ b.headD 0 < 128 then .error .canonSize s else .ok b s
    | .list => .error .expectedString

def Stream.raw : StreamM (List UInt8) :=
  andThen Stream.nextKind fun (kind, size) =>
    match kind with
    | .byte => singleByte
    | .string => andThen (readFull size) fun b => .ok (puthead 0x80 0xB8 size ++ b)
    | .list => andThen (readFull size) fun b => .ok (puthead 0xC0 0xF7 size ++ b)

/-- The content of an integer; the error of a leading zero is another one than in
a size. -/
def readInteger (size : Nat) : StreamM Nat := fun s =>
  match readUint size s with
  | .error err s => .error (if err = .canonSize then .canonInt else err) s
  | .ok v s => if 0 < size ∧ v < 128 then .error .canonSize s else .ok v s

def Stream.uint (maxbits : Nat) : StreamM Nat :=
  andThen Stream.nextKind fun (kind, size) =>
    match kind with
    | .byte => fun s =>
        if s.byteval = 0 then .error .canonInt s
        else .ok s.byteval.toNat { s with kind := none }
    | .string => if maxbits / 8 < size then .error .uintOverflow else readInteger size
    | .list => .error .expectedString

def Stream.bool : StreamM Bool :=
  andThen (Stream.uint 8) fun num =>
    match num with
    | 0 => .ok false
    | 1 => .ok true
    | num => .error (.invalidBool num)

def Stream.list : StreamM Nat :=
  andThen Stream.nextKind fun (kind, size) =>
    if kind ≠ .list then .error .expectedList
    else fun s => .ok size { s with stack := ⟨0, size⟩ :: s.stack, kind := none, size := 0 }

def Stream.listEnd : StreamM Unit := fun s =>
  match s.stack with
  | [] => .error .notInList s
  | tos :: outer =>
      if tos.pos ≠ tos.size then .error .notAtEOL s
      else .ok () { s with stack := charge outer tos.size, kind := none, size := 0 }

def wrapStreamError (err : RlpError) (typ : String) : RlpError :=
  match err with
  | .canonInt => .decode "non-canonical integer (leading zero bytes)" typ []
  | .canonSize => .decode "non-canonical size information" typ []
  | .expectedList => .decode "expected input list" typ []
  | .expectedString => .decode "expected input string or byte" typ []
  | .uintOverflow => .decode "input string too long" typ []
  | .notAtEOL => .decode "input list has too many elements" typ []
  | err => err

def addErrorContext (err : RlpError) (ctx : String) : RlpError :=
  match err with
  | .decode msg typ old => .decode msg typ (old ++ [ctx])
  | err => err

def decodeUint (bits : Nat) (typ : String) : StreamM Nat :=
  mapError (wrapStreamError · typ) (Stream.uint bits)

def decodeByteArray (vlen : Nat) (typ : String) : StreamM (List UInt8) :=
  andThen Stream.nextKind fun (kind, size) =>
    match kind with
    | .byte =>
        if vlen = 0 then .error (.decode "input string too long" typ [])
        else if 1 < vlen then .error (.decode "input string too short" typ [])
        else fun s =>
          -- the error of Uint, for the byte 0, is dropped
          match Stream.uint 64 s with
          | .error _ s => .ok [0] s
          | .ok value s => .ok [UInt8.ofNat value] s
    | .string =>
        if vlen < size then .error (.decode "input string too long" typ [])
        else if size < vlen then .error (.decode "input string too short" typ [])
        else andThen (readFull vlen) fun slice s =>
          if size = 1 ∧ slice.headD 0 < 128 then .error (wrapStreamError .canonSize typ) s
          else .ok slice s
    | .list => .error (wrapStreamError .expectedString typ)

/-- The elements up to the end of the list, each read by `elem`; the context of an
error is the index. The loop is given up when the fuel does not suffice. -/
def decodeSliceElems {α : Type} (elem : StreamM α) : Nat → Nat → StreamM (List α)
  | 0, _ => .error .endless
  | fuel + 1, i => fun s =>
      match elem s with
      | .error .eol s => .ok [] s
      | .error err s => .error (addErrorContext err ("[" ++ toString i ++ "]")) s
      | .ok value s =>
          match decodeSliceElems elem fuel (i + 1) s with
          | .error err s => .error err s
          | .ok values s => .ok (value :: values) s

section Loop

variable {α : Type} {elem : StreamM α} {fuel i : Nat} {s t : Stream}

theorem slice_elems_end (read : elem s = .error .eol t) :
    decodeSliceElems elem (fuel + 1) i s = .ok [] t := by
  rw [decodeSliceElems]
  dsimp only
  rw [read]

theorem slice_elems_error {err : RlpError} (other : err ≠ .eol) (read : elem s = .error err t) :
    decodeSliceElems elem (fuel + 1) i s =
      .error (addErrorContext err ("[" ++ toString i ++ "]")) t := by
  rw [decodeSliceElems]
  dsimp only
  rw [read]
  cases err
  case eol => exact absurd rfl other
  all_goals rfl

theorem slice_elems_next {value : α} (read : elem s = .ok value t) :
    decodeSliceElems elem (fuel + 1) i s =
      andThen (decodeSliceElems elem fuel (i + 1)) (fun values => .ok (value :: values)) t := by
  rw [decodeSliceElems, andThen]
  dsimp only
  rw [read]
  dsimp only
  cases decodeSliceElems elem fuel (i + 1) t <;> rfl

end Loop

/-- A slice with the tag `tail`: all elements that are left in the list, which cannot
be more than it has bytes. -/
def decodeTail {α : Type} (elem : StreamM α) : StreamM (List α) := fun s =>
  decodeSliceElems elem (s.r.length + 1) 0 s

def decodeField {α : Type} (typ name : String) (field : StreamM α) : StreamM α :=
  mapError (fun err =>
    if err = .eol then .decode "too few elements" typ [] else addErrorContext err ("." ++ name)) field

def decodeStruct {α : Type} (typ : String) (fields : StreamM α) : StreamM α :=
  andThen (mapError (wrapStreamError · typ) Stream.list) fun _ =>
    andThen fields fun value =>
      andThen (mapError (wrapStreamError · typ) Stream.listEnd) fun _ => .ok value

/-- `Decode` names the target type in an error that has a context. -/
def decode {α : Type} (typ : String) (decoder : StreamM α) : StreamM α :=
  mapError (fun err =>
    match err with
    | .decode msg inner (ctx :: more) =>
        .decode msg inner ((ctx :: more) ++ ["(" ++ typ ++ ")"])
    | err => err) decoder

section Reading

variable {s s' : Stream} {n m : Nat} {rest : List UInt8}

/-- The next `n` bytes are there and belong to the innermost list. -/
structure Fits (s : Stream) (n : Nat) : Prop where
  limited : s.limited = true
  present : n ≤ s.r.length
  allowed : n ≤ s.remaining
  inside : overflows s.stack n = false

/-- The stream after `n` bytes, up to the header it remembers. -/
def Stream.skip (s : Stream) (n : Nat) : Stream :=
  { s with r := s.r.drop n, remaining := s.remaining - n, kind := none, stack := charge s.stack n }

theorem charge_charge (stack : List ListPos) (n m : Nat) :
    charge (charge stack n) m = charge stack (n + m) := by
  cases stack with
  | nil => rfl
  | cons tos outer => simp [charge, Nat.add_assoc]

theorem overflows_charge (stack : List ListPos) (n m : Nat)
    (fits : overflows stack (n + m) = false) : overflows (charge stack n) m = false := by
  cases stack with
  | nil => rfl
  | cons tos outer =>
      simp only [overflows, charge, decide_eq_false_iff_not] at fits ⊢
      omega

theorem overflows_mono {stack : List ListPos} (fits : overflows stack n = false) (less : m ≤ n) :
    overflows stack m = false := by
  cases stack with
  | nil => rfl
  | cons tos outer =>
      simp only [overflows, decide_eq_false_iff_not] at fits ⊢
      omega

theorem fits_of_le (fits : Fits s n) (less : m ≤ n) : Fits s m where
  limited := fits.limited
  present := Nat.le_trans less fits.present
  allowed := Nat.le_trans less fits.allowed
  inside := overflows_mono fits.inside less

theorem fits_skip (fits : Fits s (n + m)) : Fits (s.skip n) m where
  limited := fits.limited
  present := by
    have present := fits.present
    simp only [Stream.skip, List.length_drop]
    omega
  allowed := by
    have allowed := fits.allowed
    simp only [Stream.skip]
    omega
  inside := overflows_charge s.stack n m fits.inside

theorem will_read_fits (fits : Fits s n) :
    willRead n s =
      .ok () { s with kind := none, stack := charge s.stack n, remaining := s.remaining - n } := by
  have allowed : ¬s.remaining < n := Nat.not_lt.mpr fits.allowed
  simp [willRead, fits.inside, fits.limited, allowed]

theorem read_full_ok {bytes : List UInt8} {s' : Stream} :
    readFull n s = .ok bytes s' ↔ ∃ t, willRead n s = .ok () t ∧ n ≤ t.r.length ∧
      bytes = t.r.take n ∧ s' = { t with r := t.r.drop n } := by
  unfold readFull
  cases charged : willRead n s with
  | error err t => simp
  | ok value t =>
      dsimp only
      split_ifs with short
      · simp only [false_iff, EStateM.Result.ok.injEq, true_and]
        rintro ⟨t, rfl, enough, _⟩
        omega
      · constructor
        · intro ran
          obtain ⟨rfl, rfl⟩ := EStateM.Result.ok.inj ran
          exact ⟨t, rfl, Nat.not_lt.mp short, rfl, rfl⟩
        · rintro ⟨t, same, _, rfl, rfl⟩
          obtain ⟨_, rfl⟩ := EStateM.Result.ok.inj same
          rfl

theorem read_byte_ok {b : UInt8} {s' : Stream} :
    readByte s = .ok b s' ↔ ∃ t rest, willRead 1 s = .ok () t ∧ t.r = b :: rest ∧
      s' = { t with r := rest } := by
  unfold readByte
  cases charged : willRead 1 s with
  | error err t => simp
  | ok value t =>
      dsimp only
      cases input : t.r with
      | nil =>
          simp only [reduceCtorEq, false_iff, EStateM.Result.ok.injEq, true_and]
          rintro ⟨t, rest, rfl, next, _⟩
          rw [input] at next
          cases next
      | cons first rest =>
          constructor
          · intro ran
            obtain ⟨rfl, rfl⟩ := EStateM.Result.ok.inj ran
            exact ⟨t, rest, rfl, input, rfl⟩
          · rintro ⟨t, rest, same, next, rfl⟩
            obtain ⟨_, rfl⟩ := EStateM.Result.ok.inj same
            rw [input] at next
            obtain ⟨rfl, rfl⟩ := List.cons.inj next
            rfl

theorem read_full_fits (fits : Fits s n) : readFull n s = .ok (s.r.take n) (s.skip n) := by
  have present : ¬s.r.length < n := Nat.not_lt.mpr fits.present
  simp [readFull, will_read_fits fits, present, Stream.skip]

theorem read_byte_fits {b : UInt8} (fits : Fits s 1) (next : s.r = b :: rest) :
    readByte s = .ok b (s.skip 1) := by
  simp [readByte, will_read_fits fits, next, Stream.skip]

theorem read_uint_putint {i : Nat} (small : i < 2 ^ 64) (fits : Fits s (putintSize i))
    (next : s.r = putint i ++ rest) :
    readUint (putintSize i) s = .ok i (s.skip (putintSize i)) := by
  have positive := (putint_size_bounds i).1
  have taken : s.r.take (putintSize i) = putint i := by
    rw [next, ← putint_length i, List.take_left]
  by_cases single : putintSize i = 1
  · have value : ofBytes (putint i) = i := of_bytes_putint small
    have one : (putint i).length = 1 := by rw [putint_length, single]
    obtain ⟨b, bytes⟩ := List.length_eq_one_iff.mp one
    rw [bytes, List.singleton_append] at next
    rw [single] at fits ⊢
    rw [bytes, of_bytes_cons] at value
    have byte : b.toNat = i := by simpa [ofBytes] using value
    simp [readUint, read_byte_fits fits next, byte]
  · obtain ⟨first, others, bytes, nonzero⟩ := putint_leading small (by omega)
    have lead : (putint i).headD 0 ≠ 0 := by rw [bytes]; exact nonzero
    have full := read_full_fits fits
    rw [taken] at full
    rw [readUint]
    · rw [full]
      dsimp only
      rw [if_neg lead, of_bytes_putint small]
    · omega
    · exact single

theorem tag_to_nat {tag : UInt8} {count : Nat} (fits : tag.toNat + count < 256) :
    (tag + UInt8.ofNat count).toNat = tag.toNat + count := by
  rw [UInt8.toNat_add, UInt8.toNat_ofNat']
  omega

def smalltag : Kind → UInt8
  | .list => 0xC0
  | _ => 0x80

def largetag : Kind → UInt8
  | .list => 0xF7
  | _ => 0xB7

def header (kind : Kind) (size : Nat) : List UInt8 := puthead (smalltag kind) (largetag kind) size

theorem tag_lt_iff {tag bound : UInt8} {count : Nat} (fits : tag.toNat + count < 256) :
    tag + UInt8.ofNat count < bound ↔ tag.toNat + count < bound.toNat := by
  rw [UInt8.lt_iff_toNat_lt, tag_to_nat fits]

theorem tag_sub_self {tag : UInt8} {count : Nat} (fits : tag.toNat + count < 256) :
    (tag + UInt8.ofNat count - tag).toNat = count := by
  have le : tag ≤ tag + UInt8.ofNat count := by
    rw [UInt8.le_iff_toNat_le, tag_to_nat fits]
    omega
  rw [UInt8.toNat_sub_of_le _ _ le, tag_to_nat fits]
  omega

theorem read_kind_small {kind : Kind} (several : kind ≠ .byte) {size : Nat} (short : size < 56)
    (fits : Fits s 1) (next : s.r = (smalltag kind + UInt8.ofNat size) :: rest) :
    readKind s = ((kind, size, none), { s.skip 1 with byteval := 0 }) := by
  rw [readKind, read_byte_fits fits next]
  cases kind with
  | byte => exact absurd rfl several
  | string =>
      have room : (0x80 : UInt8).toNat + size < 256 := by simp; omega
      simp only [smalltag, tag_lt_iff room, tag_sub_self room]
      rw [if_neg (by simp), if_pos (by simp; omega)]
  | list =>
      have room : (0xC0 : UInt8).toNat + size < 256 := by simp; omega
      simp only [smalltag, tag_lt_iff room, tag_sub_self room]
      rw [if_neg (by simp; omega), if_neg (by simp; omega), if_neg (by simp), if_pos (by simp; omega)]

theorem read_kind_large {kind : Kind} (several : kind ≠ .byte) {size : Nat} (long : 56 ≤ size)
    (small : size < 2 ^ 64) (fits : Fits s (1 + putintSize size))
    (next : s.r = (largetag kind + UInt8.ofNat (putintSize size)) :: (putint size ++ rest)) :
    readKind s = ((kind, size, none), { s.skip (1 + putintSize size) with byteval := 0 }) := by
  have bounds := putint_size_bounds size
  have inner : Fits { s.skip 1 with byteval := 0 } (putintSize size) := by
    have after := fits_skip fits
    exact ⟨after.limited, after.present, after.allowed, after.inside⟩
  have content : ({ s.skip 1 with byteval := 0 } : Stream).r = putint size ++ rest := by
    simp [Stream.skip, next]
  have skipped : ({ s.skip 1 with byteval := 0 } : Stream).skip (putintSize size) =
      { s.skip (1 + putintSize size) with byteval := 0 } := by
    simp only [Stream.skip, charge_charge, List.drop_drop, Nat.sub_sub]
  have sized : ∀ width, width = putintSize size →
      readSize kind width { s.skip 1 with byteval := 0 } =
        ((kind, size, none), { s.skip (1 + putintSize size) with byteval := 0 }) := by
    rintro width rfl
    rw [readSize, read_uint_putint small inner content, skipped]
    simp [Nat.not_lt.mpr long]
  rw [readKind, read_byte_fits (fits_of_le fits (by omega)) next]
  cases kind with
  | byte => exact absurd rfl several
  | string =>
      have room : (0xB7 : UInt8).toNat + putintSize size < 256 := by simp; omega
      simp only [largetag, tag_lt_iff room, tag_sub_self room]
      rw [if_neg (by simp; omega), if_neg (by simp; omega), if_pos (by simp; omega)]
      exact sized _ rfl
  | list =>
      have room : (0xF7 : UInt8).toNat + putintSize size < 256 := by simp; omega
      simp only [largetag, tag_lt_iff room, tag_sub_self room]
      rw [if_neg (by simp; omega), if_neg (by simp; omega), if_neg (by simp; omega),
        if_neg (by simp; omega)]
      exact sized _ rfl

theorem read_kind_header {kind : Kind} (several : kind ≠ .byte) {size : Nat} (small : size < 2 ^ 64)
    (fits : Fits s (header kind size).length) (next : s.r = header kind size ++ rest) :
    readKind s =
      ((kind, size, none), { s.skip (header kind size).length with byteval := 0 }) := by
  by_cases short : size < 56
  · have head : header kind size = [smalltag kind + UInt8.ofNat size] := by
      rw [header, puthead, if_pos short]
    rw [head] at fits next ⊢
    exact read_kind_small several short fits next
  · have head : header kind size =
        (largetag kind + UInt8.ofNat (putintSize size)) :: putint size := by
      rw [header, puthead, if_neg short, putint_length]
    have width : (header kind size).length = 1 + putintSize size := by
      rw [head, List.length_cons, putint_length, Nat.add_comm]
    rw [width] at fits ⊢
    rw [head] at next
    exact read_kind_large several (by omega) small fits next

/-- The stream once `Kind` has read a header of `n` bytes. -/
def Stream.peeked (s : Stream) (n : Nat) (kind : Kind) (size : Nat) (byteval : UInt8) : Stream :=
  { s.skip n with kind := some kind, size := size, byteval := byteval, kinderr := none }

theorem size_error_of_fits {size : Nat} (fits : Fits s size) : sizeError s size = none := by
  have allowed : ¬s.remaining < size := Nat.not_lt.mpr fits.allowed
  simp [sizeError, allowed, fits.inside]

theorem next_kind_of_read {kind : Kind} {size : Nat} (armed : s.kind = none)
    (more : atListEnd s.stack = false)
    (read : readKind { s with kinderr := none } = ((kind, size, none), s'))
    (calm : sizeError s' size = none) :
    Stream.nextKind s =
      .ok (kind, size) { s' with kind := some kind, size := size, kinderr := none } := by
  rw [Stream.nextKind, if_neg (by simp [armed])]
  dsimp only
  rw [if_neg (by simp [more]), read]
  simp [cachedKind, calm]

theorem next_kind_header {kind : Kind} (several : kind ≠ .byte) {size : Nat} (small : size < 2 ^ 64)
    (armed : s.kind = none) (more : atListEnd s.stack = false)
    (fits : Fits s ((header kind size).length + size)) (next : s.r = header kind size ++ rest) :
    Stream.nextKind s = .ok (kind, size) (s.peeked (header kind size).length kind size 0) := by
  have enough := fits_of_le fits (Nat.le_add_right _ size)
  have first : Fits { s with kinderr := none } (header kind size).length :=
    ⟨enough.limited, enough.present, enough.allowed, enough.inside⟩
  have after := fits_skip fits
  have content : Fits { s.skip (header kind size).length with kinderr := none, byteval := 0 }
      size := ⟨after.limited, after.present, after.allowed, after.inside⟩
  exact next_kind_of_read armed more (read_kind_header several small first next)
    (size_error_of_fits content)

theorem next_kind_byte {b : UInt8} (single : b < 0x80) (armed : s.kind = none)
    (more : atListEnd s.stack = false) (fits : Fits s 1) (next : s.r = b :: rest) :
    Stream.nextKind s = .ok (.byte, 0) (s.peeked 1 .byte 0 b) := by
  have first : Fits { s with kinderr := none } 1 :=
    ⟨fits.limited, fits.present, fits.allowed, fits.inside⟩
  have read : readKind { s with kinderr := none } =
      ((.byte, 0, none), { s.skip 1 with kinderr := none, byteval := b }) := by
    rw [readKind, read_byte_fits first next]
    dsimp only
    rw [if_pos single]
    rfl
  have after : Fits (s.skip 1) 0 := fits_skip fits
  have content : Fits { s.skip 1 with kinderr := none, byteval := b } 0 :=
    ⟨after.limited, after.present, after.allowed, after.inside⟩
  exact next_kind_of_read armed more read (size_error_of_fits content)

/-- The stream `s'` is what is left of `s` after `n` bytes; the header it remembers
does not matter. -/
structure Consumed (s : Stream) (n : Nat) (s' : Stream) : Prop where
  r : s'.r = s.r.drop n
  remaining : s'.remaining = s.remaining - n
  limited : s'.limited = s.limited
  stack : s'.stack = charge s.stack n
  armed : s'.kind = none

theorem consumed_peeked (s : Stream) (n m : Nat) (kind : Kind) (size : Nat) (byteval : UInt8) :
    Consumed s (n + m) ((s.peeked n kind size byteval).skip m) where
  r := by simp [Stream.peeked, Stream.skip]
  remaining := by simp [Stream.peeked, Stream.skip, Nat.sub_sub]
  limited := rfl
  stack := by simp [Stream.peeked, Stream.skip, charge_charge]
  armed := rfl

theorem consumed_trans {s'' : Stream} (first : Consumed s n s') (second : Consumed s' m s'') :
    Consumed s (n + m) s'' where
  r := by rw [second.r, first.r, List.drop_drop]
  remaining := by rw [second.remaining, first.remaining, Nat.sub_sub]
  limited := second.limited.trans first.limited
  stack := by rw [second.stack, first.stack, charge_charge]
  armed := second.armed

theorem fits_consumed (fits : Fits s (n + m)) (consumed : Consumed s n s') : Fits s' m where
  limited := consumed.limited.trans fits.limited
  present := by
    have present := fits.present
    rw [consumed.r, List.length_drop]
    omega
  allowed := by
    have allowed := fits.allowed
    rw [consumed.remaining]
    omega
  inside := by
    rw [consumed.stack]
    exact overflows_charge s.stack n m fits.inside

theorem peeked_fits {kind : Kind} {size : Nat} {byteval : UInt8} (fits : Fits s (n + m)) :
    Fits (s.peeked n kind size byteval) m := by
  have after := fits_skip fits
  exact ⟨after.limited, after.present, after.allowed, after.inside⟩

/-- `putint` never writes a leading zero, so the integer reader takes it. -/
theorem read_integer_putint {i : Nat} (large : 128 ≤ i) (small : i < 2 ^ 64)
    (fits : Fits s (putintSize i)) (next : s.r = putint i ++ rest) :
    readInteger (putintSize i) s = .ok i (s.skip (putintSize i)) := by
  rw [readInteger, read_uint_putint small fits next]
  dsimp only
  rw [if_neg (by omega)]

theorem uint_written {i bits : Nat} (small : i < 2 ^ 64) (narrow : putintSize i ≤ bits / 8)
    (armed : s.kind = none) (more : atListEnd s.stack = false) (fits : Fits s (uintBytes i).length)
    (next : s.r = uintBytes i ++ rest) :
    ∃ s', Stream.uint bits s = .ok i s' ∧ Consumed s (uintBytes i).length s' := by
  unfold Stream.uint
  by_cases zero : i = 0
  · have bytes : uintBytes i = header .string 0 := by
      rw [uintBytes, if_pos zero]
      rfl
    rw [bytes] at fits next ⊢
    rw [and_then_ok (next_kind_header (by decide) (by decide) armed more fits next)]
    refine ⟨{ s.peeked 1 .string 0 0 with kind := none }, ?_, ⟨rfl, rfl, rfl, rfl, rfl⟩⟩
    subst zero
    rfl
  by_cases single : i < 128
  · have bytes : uintBytes i = [UInt8.ofNat i] := by
      rw [uintBytes, if_neg zero, if_pos single]
    obtain ⟨value, low⟩ := byte_of_small single
    have nonzero : UInt8.ofNat i ≠ 0 := by
      intro same
      rw [same] at value
      exact zero value.symm
    rw [bytes] at fits next ⊢
    rw [and_then_ok (next_kind_byte low armed more fits next)]
    refine ⟨{ s.peeked 1 .byte 0 (UInt8.ofNat i) with kind := none }, ?_, ⟨rfl, rfl, rfl, rfl, rfl⟩⟩
    simp only [Stream.peeked, if_neg nonzero, value]
  · have width := putint_size_bounds i
    have bytes : uintBytes i = header .string (putintSize i) ++ putint i := by
      rw [uintBytes, if_neg zero, if_neg single, header, puthead, if_pos (by omega), putint_length]
      rfl
    have count : (uintBytes i).length = (header .string (putintSize i)).length + putintSize i := by
      rw [bytes, List.length_append, putint_length]
    rw [count] at fits ⊢
    rw [bytes, List.append_assoc] at next
    rw [and_then_ok (next_kind_header (by decide) (by omega) armed more fits next)]
    have content : (s.peeked (header .string (putintSize i)).length .string (putintSize i) 0).r =
        putint i ++ rest := by
      simp [Stream.peeked, Stream.skip, next]
    refine ⟨_, ?_, consumed_peeked s _ (putintSize i) .string (putintSize i) 0⟩
    dsimp only
    rw [if_neg (by omega)]
    exact read_integer_putint (by omega) small (peeked_fits fits) content

theorem string_bytes_eq {b : List UInt8} (several : b.length ≠ 1) :
    stringBytes b = header .string b.length ++ b := by
  rw [stringBytes, if_neg (fun single => several single.1)]
  rfl

theorem bytes_written {b : List UInt8} (small : b.length < 2 ^ 64) (armed : s.kind = none)
    (more : atListEnd s.stack = false) (fits : Fits s (stringBytes b).length)
    (next : s.r = stringBytes b ++ rest) :
    ∃ s', Stream.bytes s = .ok b s' ∧ Consumed s (stringBytes b).length s' := by
  unfold Stream.bytes
  by_cases single : b.length = 1 ∧ b.headD 0 ≤ 0x7F
  · obtain ⟨one, low⟩ := single
    obtain ⟨byte, rfl⟩ := List.length_eq_one_iff.mp one
    have bytes : stringBytes [byte] = [byte] := by rw [stringBytes, if_pos ⟨rfl, low⟩]
    have below : byte < 0x80 := by
      rw [UInt8.lt_iff_toNat_lt]
      exact Nat.lt_succ_of_le (UInt8.le_iff_toNat_le.mp low)
    rw [bytes] at fits next ⊢
    rw [and_then_ok (next_kind_byte below armed more fits next)]
    exact ⟨_, rfl, ⟨rfl, rfl, rfl, rfl, rfl⟩⟩
  · have bytes : stringBytes b = header .string b.length ++ b := by
      rw [stringBytes, if_neg single]
      rfl
    have canonical : ¬(b.length = 1 ∧ b.headD 0 < 128) := by
      rintro ⟨one, low⟩
      exact single ⟨one, Nat.le_of_lt_succ (UInt8.lt_iff_toNat_lt.mp low)⟩
    rw [bytes, List.append_assoc] at next
    rw [bytes, List.length_append] at fits ⊢
    have content : (s.peeked (header .string b.length).length .string b.length 0).r.take b.length =
        b := by
      simp [Stream.peeked, Stream.skip, next]
    rw [and_then_ok (next_kind_header (by decide) small armed more fits next)]
    refine ⟨_, ?_, consumed_peeked s _ b.length .string b.length 0⟩
    dsimp only
    rw [and_then_ok (read_full_fits (peeked_fits fits)), content, if_neg canonical]

theorem byte_array_written {b : List UInt8} (typ : String) (several : b.length ≠ 1)
    (small : b.length < 2 ^ 64) (armed : s.kind = none) (more : atListEnd s.stack = false)
    (fits : Fits s (stringBytes b).length) (next : s.r = stringBytes b ++ rest) :
    ∃ s', decodeByteArray b.length typ s = .ok b s' ∧ Consumed s (stringBytes b).length s' := by
  rw [string_bytes_eq several, List.append_assoc] at next
  rw [string_bytes_eq several, List.length_append] at fits ⊢
  have content : (s.peeked (header .string b.length).length .string b.length 0).r.take b.length =
      b := by
    simp [Stream.peeked, Stream.skip, next]
  rw [decodeByteArray, and_then_ok (next_kind_header (by decide) small armed more fits next)]
  refine ⟨_, ?_, consumed_peeked s _ b.length .string b.length 0⟩
  dsimp only
  rw [if_neg (by omega), if_neg (by omega), and_then_ok (read_full_fits (peeked_fits fits)),
    content, if_neg (fun single => several single.1)]

/-- The stream inside a list of size `n` behind a header of `h` bytes. -/
structure Entered (s : Stream) (h n : Nat) (s' : Stream) : Prop where
  r : s'.r = s.r.drop h
  remaining : s'.remaining = s.remaining - h
  limited : s'.limited = s.limited
  stack : s'.stack = ⟨0, n⟩ :: charge s.stack h
  armed : s'.kind = none

theorem list_written (small : n < 2 ^ 64) (armed : s.kind = none)
    (more : atListEnd s.stack = false) (fits : Fits s ((header .list n).length + n))
    (next : s.r = header .list n ++ rest) :
    ∃ s', Stream.list s = .ok n s' ∧ Entered s (header .list n).length n s' := by
  rw [Stream.list, and_then_ok (next_kind_header (by decide) small armed more fits next)]
  refine ⟨_, rfl, ⟨rfl, rfl, rfl, rfl, rfl⟩⟩

theorem fits_entered {h : Nat} (fits : Fits s (h + n)) (entered : Entered s h n s') :
    Fits s' n where
  limited := entered.limited.trans fits.limited
  present := by
    have present := fits.present
    rw [entered.r, List.length_drop]
    omega
  allowed := by
    have allowed := fits.allowed
    rw [entered.remaining]
    omega
  inside := by
    rw [entered.stack]
    simp [overflows]

theorem list_framed {α : Type} (elems : StreamM α) {value : α}
    (small : n < 2 ^ 64) (armed : s.kind = none) (more : atListEnd s.stack = false)
    (fits : Fits s ((header .list n).length + n)) (next : s.r = header .list n ++ rest)
    (inner : ∀ t outer, t.kind = none → t.r = rest → t.stack = ⟨0, n⟩ :: outer → Fits t n →
      ∃ t', elems t = .ok value t' ∧ Consumed t n t') :
    ∃ t t' s', Stream.list s = .ok n t ∧ elems t = .ok value t' ∧ Stream.listEnd t' = .ok () s' ∧
      Consumed s ((header .list n).length + n) s' := by
  obtain ⟨t, opened, entered⟩ := list_written small armed more fits next
  have inside : t.r = rest := by rw [entered.r, next, List.drop_left]
  obtain ⟨t', read, consumed⟩ :=
    inner t _ entered.armed inside entered.stack (fits_entered fits entered)
  have full : t'.stack = ⟨n, n⟩ :: charge s.stack (header .list n).length := by
    rw [consumed.stack, entered.stack, charge, Nat.zero_add]
  have closed : Stream.listEnd t' = .ok () { t' with
      stack := charge (charge s.stack (header .list n).length) n, kind := none, size := 0 } := by
    simp [Stream.listEnd, full]
  refine ⟨t, t', _, opened, read, closed, ?_⟩
  constructor
  case r => exact consumed.r.trans (by rw [entered.r, List.drop_drop])
  case remaining => exact consumed.remaining.trans (by rw [entered.remaining, Nat.sub_sub])
  case limited => exact consumed.limited.trans entered.limited
  case stack => exact charge_charge _ _ _
  case armed => rfl

theorem struct_written {α : Type} {typ : String} {fields : StreamM α} {value : α}
    (small : n < 2 ^ 64) (armed : s.kind = none) (more : atListEnd s.stack = false)
    (fits : Fits s ((header .list n).length + n)) (next : s.r = header .list n ++ rest)
    (inner : ∀ t outer, t.kind = none → t.r = rest → t.stack = ⟨0, n⟩ :: outer → Fits t n →
      ∃ t', fields t = .ok value t' ∧ Consumed t n t') :
    ∃ s', decodeStruct typ fields s = .ok value s' ∧
      Consumed s ((header .list n).length + n) s' := by
  obtain ⟨t, t', s', opened, read, closed, consumed⟩ :=
    list_framed fields small armed more fits next inner
  refine ⟨s', ?_, consumed⟩
  rw [decodeStruct, and_then_ok (map_error_ok opened), and_then_ok read,
    and_then_ok (map_error_ok closed)]

theorem next_kind_at_end (armed : s.kind = none) (done : atListEnd s.stack = true) :
    Stream.nextKind s = .error .eol { s with kinderr := none } := by
  simp [Stream.nextKind, armed, done]

theorem charge_zero (stack : List ListPos) : charge stack 0 = stack := by
  cases stack <;> rfl

theorem consumed_nothing (armed : s.kind = none) : Consumed s 0 { s with kinderr := none } :=
  ⟨rfl, rfl, rfl, (charge_zero s.stack).symm, armed⟩

theorem tail_at_end (armed : s.kind = none) (done : atListEnd s.stack = true) :
    ∃ s', decodeTail Stream.raw s = .ok [] s' ∧ Consumed s 0 s' := by
  have raw : Stream.raw s = .error .eol { s with kinderr := none } :=
    and_then_error (next_kind_at_end armed done)
  refine ⟨{ s with kinderr := none }, ?_, consumed_nothing armed⟩
  rw [decodeTail, slice_elems_end raw]

end Reading

section Fields

theorem header_length_le (kind : Kind) (size : Nat) : (header kind size).length ≤ 9 := by
  have bounds := putint_size_bounds size
  rw [header, puthead]
  split_ifs
  · simp
  · rw [List.length_cons, putint_length]
    omega

theorem uint_bytes_length_le (i : Nat) : (uintBytes i).length ≤ 9 := by
  have bounds := putint_size_bounds i
  rw [uintBytes]
  split_ifs
  · simp
  · simp
  · rw [List.length_cons, putint_length]
    omega

theorem string_bytes_length {b : List UInt8} (several : b.length ≠ 1) :
    b.length ≤ (stringBytes b).length ∧ (stringBytes b).length ≤ b.length + 9 := by
  have front := header_length_le .string b.length
  rw [string_bytes_eq several, List.length_append]
  omega

theorem string_bytes_ne_nil {b : List UInt8} (several : 1 < b.length) : stringBytes b ≠ [] := by
  have size := (string_bytes_length (Nat.ne_of_gt several)).1
  intro none
  rw [none, List.length_nil] at size
  omega

theorem uint_bytes_ne_nil (i : Nat) : uintBytes i ≠ [] := by
  rw [uintBytes]
  split_ifs <;> simp

/-- Inside a list, the decoder takes the bytes for the value. -/
def Reads {α : Type} (decoder : StreamM α) (bytes : List UInt8) (value : α) : Prop :=
  ∀ s tos outer rest, s.kind = none → s.stack = tos :: outer → tos.pos < tos.size →
    s.r = bytes ++ rest → Fits s bytes.length →
    ∃ s', decoder s = .ok value s' ∧ Consumed s bytes.length s'

/-- The decoder takes the bytes for the value when they end the list. -/
def ReadsLast {α : Type} (decoder : StreamM α) (bytes : List UInt8) (value : α) : Prop :=
  ∀ s tos outer rest, s.kind = none → s.stack = tos :: outer →
    tos.pos + bytes.length = tos.size → s.r = bytes ++ rest → Fits s bytes.length →
    ∃ s', decoder s = .ok value s' ∧ Consumed s bytes.length s'

variable {α β : Type} {bytes more : List UInt8} {value : α}

theorem not_at_list_end {tos : ListPos} {outer : List ListPos} (less : tos.pos < tos.size) :
    atListEnd (tos :: outer) = false := by
  simp only [atListEnd, decide_eq_false_iff_not]
  omega

theorem reads_uint {i : Nat} (small : i < 2 ^ 64) (typ : String) :
    Reads (decodeUint 64 typ) (uintBytes i) i := by
  intro s tos outer rest armed stack less next fits
  have inside : atListEnd s.stack = false := by
    rw [stack]
    exact not_at_list_end less
  have narrow : putintSize i ≤ 64 / 8 := (putint_size_bounds i).2
  obtain ⟨s', read, consumed⟩ := uint_written small narrow armed inside fits next
  exact ⟨s', map_error_ok read, consumed⟩

theorem reads_byte_array {b : List UInt8} (several : b.length ≠ 1) (small : b.length < 2 ^ 64)
    (typ : String) : Reads (decodeByteArray b.length typ) (stringBytes b) b := by
  intro s tos outer rest armed stack less next fits
  have inside : atListEnd s.stack = false := by
    rw [stack]
    exact not_at_list_end less
  exact byte_array_written typ several small armed inside fits next

theorem reads_then {first : StreamM α} {next : α → StreamM β} {result : β}
    (some : bytes ≠ []) (head : Reads first bytes value)
    (tail : ReadsLast (next value) more result) :
    ReadsLast (andThen first next) (bytes ++ more) result := by
  intro s tos outer rest armed stack full arrived fits
  have positive : 0 < bytes.length := List.length_pos_iff.mpr some
  rw [List.length_append] at full fits ⊢
  rw [List.append_assoc] at arrived
  obtain ⟨s', read, consumed⟩ := head s tos outer _ armed stack (by omega) arrived
    (fits_of_le fits (Nat.le_add_right _ _))
  have moved : s'.stack = { tos with pos := tos.pos + bytes.length } :: outer := by
    rw [consumed.stack, stack, charge]
  have left : s'.r = more ++ rest := by rw [consumed.r, arrived, List.drop_left]
  obtain ⟨s'', last, after⟩ := tail s' _ outer rest consumed.armed moved
    (by rw [← full, Nat.add_assoc]) left (fits_consumed fits consumed)
  refine ⟨s'', ?_, consumed_trans consumed after⟩
  rw [and_then_ok read]
  exact last

theorem reads_field {first : StreamM α} {next : α → StreamM β} {result : β} (typ name : String)
    (some : bytes ≠ []) (head : Reads first bytes value)
    (tail : ReadsLast (next value) more result) :
    ReadsLast (andThen (decodeField typ name first) next) (bytes ++ more) result := by
  refine reads_then some ?_ tail
  intro s tos outer rest armed stack less next fits
  obtain ⟨s', read, consumed⟩ := head s tos outer rest armed stack less next fits
  exact ⟨s', map_error_ok read, consumed⟩

theorem reads_empty_tail {next : List (List UInt8) → α} (typ name : String)
    (result : next [] = value) :
    ReadsLast (andThen (decodeField typ name (decodeTail Stream.raw)) fun rest => .ok (next rest))
      [] value := by
  subst result
  intro s tos outer rest armed stack full arrived fits
  have done : atListEnd s.stack = true := by
    rw [stack]
    exact decide_eq_true full
  obtain ⟨s', read, consumed⟩ := tail_at_end armed done
  have field : decodeField typ name (decodeTail Stream.raw) s = .ok [] s' := map_error_ok read
  exact ⟨s', and_then_ok field, consumed⟩

/-- A struct at the top level is read back whatever follows it. -/
theorem decode_struct_written {fields : StreamM α} (typ : String) (small : bytes.length < 2 ^ 64)
    (inner : ReadsLast fields bytes value) (rest : List UInt8) :
    ∃ s', decode typ (decodeStruct typ fields)
      (newStream (header .list bytes.length ++ bytes ++ rest) 0) = .ok value s' := by
  have fits : Fits (newStream (header .list bytes.length ++ bytes ++ rest) 0)
      ((header .list bytes.length).length + bytes.length) := by
    refine ⟨rfl, ?_, ?_, rfl⟩ <;> simp [newStream]
  obtain ⟨s', read, _⟩ := struct_written small rfl rfl fits (List.append_assoc _ _ _)
    fun t outer armed arrived stack inside =>
      inner t _ outer rest armed stack (Nat.zero_add _) arrived inside
  exact ⟨s', map_error_ok read⟩

end Fields

end PbftBlock.RlpStream
