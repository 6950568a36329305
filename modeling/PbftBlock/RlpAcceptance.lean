import PbftBlock.RlpDecoders

/-!
# What the RLP stream accepts

The converse of reading back: when a method of the stream succeeds, the bytes it
has taken are the encoding of what it returned. There is one exception. The decoder
of a `[1]byte` that holds zero leaves its header behind, and the next method finds
that header again.
-/

namespace PbftBlock.RlpAcceptance

open PbftBlock.Library.BigEndian PbftBlock.Library.FallibleMethods PbftBlock.RlpTypes
open PbftBlock.RlpStream PbftBlock.RlpWriters PbftBlock.RlpDecoders
open PbftBlock.RlpEncoding hiding encodeToBytes encode
open PbftBlock.Library.Rlp (string number list)

set_option autoImplicit false

/-- Between the two streams the bytes were taken from the reader and charged to the
innermost list. -/
structure Ate (s : Stream) (bytes : List UInt8) (s' : Stream) : Prop where
  r : s.r = bytes ++ s'.r
  stack : s'.stack = charge s.stack bytes.length

section Reads

variable {s s' s'' : Stream} {bytes more : List UInt8} {n size : Nat}

theorem ate_nothing (r : s'.r = s.r) (stack : s'.stack = s.stack) : Ate s [] s' where
  r := r.symm
  stack := stack.trans (charge_zero s.stack).symm

theorem ate_trans (first : Ate s bytes s') (second : Ate s' more s'') :
    Ate s (bytes ++ more) s'' where
  r := by rw [first.r, second.r, List.append_assoc]
  stack := by rw [second.stack, first.stack, charge_charge, List.length_append]

theorem will_read_inv (ran : willRead n s = .ok () s') :
    s'.r = s.r ∧ s'.stack = charge s.stack n ∧ s'.kind = none := by
  unfold willRead at ran
  dsimp only at ran
  split_ifs at ran
  · cases ran
    exact ⟨rfl, rfl, rfl⟩
  · cases ran
    exact ⟨rfl, rfl, rfl⟩

theorem read_full_inv (ran : readFull n s = .ok bytes s') :
    Ate s bytes s' ∧ bytes.length = n ∧ s'.kind = none := by
  obtain ⟨t, charged, enough, rfl, rfl⟩ := read_full_ok.mp ran
  obtain ⟨r, stack, armed⟩ := will_read_inv charged
  have count : (t.r.take n).length = n := List.length_take_of_le enough
  refine ⟨⟨?_, ?_⟩, count, armed⟩
  · rw [← r]
    exact (List.take_append_drop n t.r).symm
  · rw [count]
    exact stack

theorem read_byte_inv {b : UInt8} (ran : readByte s = .ok b s') :
    Ate s [b] s' ∧ s'.kind = none := by
  obtain ⟨t, rest, charged, input, rfl⟩ := read_byte_ok.mp ran
  obtain ⟨r, stack, armed⟩ := will_read_inv charged
  exact ⟨⟨r ▸ input, stack⟩, armed⟩

theorem read_uint_inv {v : Nat} (ran : readUint size s = .ok v s') :
    ∃ bytes, Ate s bytes s' ∧ bytes.length = size ∧ v = ofBytes bytes ∧
      (size ≠ 1 → ∀ more, bytes ≠ 0 :: more) ∧ s'.kind = none := by
  by_cases none : size = 0
  · subst none
    cases ran
    refine ⟨[], ate_nothing rfl rfl, rfl, rfl, ?_, rfl⟩
    intro _ more zero
    cases zero
  by_cases single : size = 1
  · subst single
    unfold readUint at ran
    cases byte : readByte s with
    | error err t =>
        rw [byte] at ran
        cases ran
    | ok b t =>
        rw [byte] at ran
        cases ran
        obtain ⟨ate, armed⟩ := read_byte_inv byte
        refine ⟨[b], ate, rfl, ?_, fun several => absurd rfl several, armed⟩
        rw [ofBytes, List.foldl_cons, List.foldl_nil, Nat.zero_mul, Nat.zero_add]
  · rw [readUint] at ran
    · cases full : readFull size s with
      | error err t =>
          rw [full] at ran
          cases ran
      | ok bytes t =>
          rw [full] at ran
          dsimp only at ran
          split_ifs at ran with zero
          cases ran
          obtain ⟨ate, count, armed⟩ := read_full_inv full
          refine ⟨bytes, ate, count, rfl, ?_, armed⟩
          intro _ more leading
          rw [leading] at zero
          exact zero rfl
    · exact none
    · exact single

theorem read_size_inv {kind kind' : Kind} {width : Nat}
    (ran : readSize kind width s = ((kind', size, none), s')) :
    kind' = kind ∧ 56 ≤ size ∧ (minimal size).length = width ∧ Ate s (minimal size) s' ∧
      s'.kind = none := by
  unfold readSize at ran
  cases read : readUint width s with
  | error err t =>
      rw [read] at ran
      cases ran
  | ok value t =>
      rw [read] at ran
      dsimp only at ran
      split_ifs at ran with short
      · cases ran
      · cases ran
        obtain ⟨bytes, ate, count, value, leading, armed⟩ := read_uint_inv read
        have canonical : ∀ more, bytes ≠ 0 :: more := by
          intro more zero
          by_cases single : width = 1
          · have last : more = [] := by
              rw [zero, List.length_cons] at count
              exact List.eq_nil_of_length_eq_zero (by omega)
            rw [zero, last] at value
            have none : size = 0 := value
            omega
          · exact leading single more zero
        have whole : minimal size = bytes := by
          rw [value]
          exact minimal_of_bytes canonical
        rw [whole]
        exact ⟨rfl, Nat.not_lt.mp short, count, ate, armed⟩

theorem tag_restored {tag b : UInt8} (above : tag ≤ b) :
    UInt8.ofNat (tag.toNat + (b - tag).toNat) = b := by
  have small := b.toNat_lt
  have order := UInt8.le_iff_toNat_le.mp above
  apply UInt8.toNat.inj
  rw [UInt8.toNat_ofNat', UInt8.toNat_sub_of_le _ _ above]
  omega

theorem size_lt_of_minimal {width : Nat} (count : (minimal size).length = width)
    (narrow : width ≤ 8) : size < 2 ^ 64 := by
  have bound := (minimal_length_le_iff 8 size).mp (by omega)
  exact bound

inductive Header (s : Stream) : Kind → Nat → Stream → Prop where
  | byte {b : UInt8} {s' : Stream} (low : b < 0x80) (ate : Ate s [b] s') (value : s'.byteval = b) :
      Header s .byte 0 s'
  | several {kind : Kind} {size : Nat} {s' : Stream} (several : kind ≠ .byte)
      (small : size < 2 ^ 64)
      (ate : Ate s (Library.Rlp.header (smalltag kind).toNat size) s') : Header s kind size s'

theorem short_header {tag b : UInt8} (above : tag ≤ b) (short : (b - tag).toNat ≤ 55) :
    Library.Rlp.header tag.toNat (b - tag).toNat = [b] := by
  rw [Library.Rlp.header, if_pos short, tag_restored above]

theorem long_header {tag large b : UInt8} (above : large ≤ b) (long : 56 ≤ size)
    (tags : large.toNat = tag.toNat + 55) (count : (minimal size).length = (b - large).toNat) :
    Library.Rlp.header tag.toNat size = b :: minimal size := by
  rw [Library.Rlp.header, if_neg (by omega), count, ← tags, tag_restored above]

theorem short_kind_inv {b : UInt8} (kind : Kind) (several : kind ≠ .byte)
    (above : (smalltag kind).toNat ≤ b.toNat) (short : b.toNat ≤ (smalltag kind).toNat + 55)
    (start : Ate s [b] s') : Header s kind (b - smalltag kind).toNat s' := by
  have reached : smalltag kind ≤ b := UInt8.le_iff_toNat_le.mpr above
  have size : (b - smalltag kind).toNat = b.toNat - (smalltag kind).toNat :=
    UInt8.toNat_sub_of_le _ _ reached
  refine .several several (by omega) ?_
  rw [short_header reached (by omega)]
  exact start

theorem long_kind_inv {b : UInt8} {t : Stream} {found : Kind} (kind : Kind) (several : kind ≠ .byte)
    (above : (largetag kind).toNat ≤ b.toNat) (narrow : b.toNat ≤ (largetag kind).toNat + 8)
    (start : Ate s [b] t)
    (ran : readSize kind (b - largetag kind).toNat t = ((found, size, none), s')) :
    Header s found size s' ∧ s'.kind = none := by
  have reached : largetag kind ≤ b := UInt8.le_iff_toNat_le.mpr above
  have width : (b - largetag kind).toNat = b.toNat - (largetag kind).toNat :=
    UInt8.toNat_sub_of_le _ _ reached
  have tags : (largetag kind).toNat = (smalltag kind).toNat + 55 := by cases kind <;> rfl
  obtain ⟨rfl, long, count, more, rearmed⟩ := read_size_inv ran
  refine ⟨.several several (size_lt_of_minimal count (by omega)) ?_, rearmed⟩
  rw [long_header reached long tags count]
  exact ate_trans start more

theorem read_kind_inv {kind : Kind} (ran : readKind s = ((kind, size, none), s')) :
    Header s kind size s' ∧ s'.kind = none := by
  unfold readKind at ran
  cases first : readByte s with
  | error err t =>
      rw [first] at ran
      cases ran
  | ok b t =>
      rw [first] at ran
      obtain ⟨ate, armed⟩ := read_byte_inv first
      dsimp only at ran
      -- the byte value of the header is forgotten before the size is read
      have start : Ate s [b] { t with byteval := 0 } := ⟨ate.r, ate.stack⟩
      have bound := b.toNat_lt
      have string : (smalltag .string).toNat = 128 ∧ (largetag .string).toNat = 183 := ⟨rfl, rfl⟩
      have list : (smalltag .list).toNat = 192 ∧ (largetag .list).toNat = 247 := ⟨rfl, rfl⟩
      simp only [UInt8.lt_iff_toNat_lt, UInt8.reduceToNat] at ran
      split_ifs at ran with low shortString longString shortList
      · cases ran
        exact ⟨.byte (UInt8.lt_iff_toNat_lt.mpr low) ⟨ate.r, ate.stack⟩ rfl, armed⟩
      · cases ran
        exact ⟨short_kind_inv .string (by decide) (by omega) (by omega) start, armed⟩
      · exact long_kind_inv .string (by decide) (by omega) (by omega) start ran
      · cases ran
        exact ⟨short_kind_inv .list (by decide) (by omega) (by omega) start, armed⟩
      · exact long_kind_inv .list (by decide) (by omega) (by omega) start ran

/-- The header of a zero byte was read and is still remembered. -/
structure Stale (s : Stream) : Prop where
  kind : s.kind = some .byte
  byteval : s.byteval = 0
  kinderr : s.kinderr = none

theorem cached_kind_inv {found : Kind × Nat} (ran : cachedKind s = .ok found s') :
    s.kinderr = none ∧ s' = s ∧ found = (s.kind.getD .byte, s.size) := by
  unfold cachedKind at ran
  cases sticky : s.kinderr with
  | some err =>
      rw [sticky] at ran
      cases ran
  | none =>
      rw [sticky] at ran
      cases ran
      exact ⟨rfl, rfl, rfl⟩

theorem cached_kind_error {err : RlpError} (ran : cachedKind s = .error err s') :
    s.kinderr = some err := by
  unfold cachedKind at ran
  cases sticky : s.kinderr with
  | some err' =>
      rw [sticky] at ran
      cases ran
      rfl
  | none =>
      rw [sticky] at ran
      cases ran

theorem next_kind_inv {kind : Kind} (armed : s.kind = none)
    (ran : Stream.nextKind s = .ok (kind, size) s') :
    Header s kind size s' ∧ s'.kind = some kind ∧ s'.kinderr = none := by
  rw [Stream.nextKind, if_neg (by simp [armed])] at ran
  dsimp only at ran
  split_ifs at ran with ended
  rcases read : readKind { s with kinderr := none } with ⟨⟨kind', size', err⟩, t⟩
  rw [read] at ran
  obtain ⟨calm, rfl, found⟩ := cached_kind_inv ran
  cases found
  have fine : err = none := (Option.or_eq_none_iff.mp calm).1
  subst fine
  refine ⟨?_, rfl, calm⟩
  cases (read_kind_inv read).1 with
  | byte low ate value => exact .byte low ⟨ate.r, ate.stack⟩ value
  | several several small ate => exact .several several small ⟨ate.r, ate.stack⟩

theorem next_kind_cached (cached : s.kind = some .byte) (calm : s.kinderr = none) :
    Stream.nextKind s = .ok (.byte, s.size) s := by
  rw [Stream.nextKind, if_pos (by simp [cached]), cachedKind, calm]
  simp [cached]

theorem next_kind_stale (stale : Stale s) : Stream.nextKind s = .ok (.byte, s.size) s :=
  next_kind_cached stale.kind stale.kinderr

/-- `Uint` on a remembered single byte keeps the header of a zero. -/
theorem uint_cached {bits : Nat} (cached : s.kind = some .byte) (calm : s.kinderr = none) :
    Stream.uint bits s =
      if s.byteval = 0 then .error .canonInt s else .ok s.byteval.toNat { s with kind := none } := by
  rw [Stream.uint, and_then_ok (next_kind_cached cached calm)]

end Reads

section Scalars

variable {s s' : Stream} {size : Nat}

theorem string_behind_header {b : List UInt8} (several : ¬(b.length = 1 ∧ b.headD 0 < 128)) :
    string b = Library.Rlp.header 0x80 b.length ++ b := by
  rw [string, if_neg several]

theorem string_low {b : UInt8} (low : b < 0x80) : string [b] = [b] := by
  rw [string, if_pos ⟨rfl, low⟩]

theorem number_low {b : UInt8} (low : b < 0x80) (nonzero : b ≠ 0) : number b.toNat = [b] := by
  have bytes : minimal b.toNat = [b] := by
    have single : ofBytes [b] = b.toNat := by simp [ofBytes]
    rw [← single]
    apply minimal_of_bytes
    intro more zero
    cases zero
    exact nonzero rfl
  rw [number, bytes, string_low low]

/-- The content of an integer that was accepted has no leading zero and could not
stand without a header. -/
theorem read_integer_inv {v : Nat} (ran : readInteger size s = .ok v s') :
    Ate s (minimal v) s' ∧ (minimal v).length = size ∧
      number v = Library.Rlp.header 0x80 size ++ minimal v ∧ s'.kind = none := by
  unfold readInteger at ran
  cases read : readUint size s with
  | error err t =>
      rw [read] at ran
      cases ran
  | ok value t =>
      rw [read] at ran
      dsimp only at ran
      split_ifs at ran with short
      cases ran
      obtain ⟨bytes, ate, count, value, leading, armed⟩ := read_uint_inv read
      have single (one : size = 1) : ∃ b : UInt8, bytes = [b] ∧ v = b.toNat := by
        obtain ⟨b, rfl⟩ := List.length_eq_one_iff.mp (count.trans one)
        refine ⟨b, rfl, ?_⟩
        rw [value]
        simp [ofBytes]
      have canonical : ∀ more, bytes ≠ 0 :: more := by
        by_cases one : size = 1
        · obtain ⟨b, rfl, same⟩ := single one
          intro more zero
          cases zero
          exact short ⟨by omega, by rw [same]; decide⟩
        · exact leading one
      have whole : minimal v = bytes := by
        rw [value]
        exact minimal_of_bytes canonical
      have several : ¬(bytes.length = 1 ∧ bytes.headD 0 < 128) := by
        rintro ⟨one, low⟩
        obtain ⟨b, rfl, same⟩ := single (count.symm.trans one)
        have below : b.toNat < 128 := UInt8.lt_iff_toNat_lt.mp low
        exact short ⟨by omega, by omega⟩
      rw [number, whole]
      refine ⟨ate, count, ?_, armed⟩
      rw [string_behind_header several, count]

theorem uint_inv {bits v : Nat} (room : 1 ≤ bits / 8) (armed : s.kind = none)
    (ran : Stream.uint bits s = .ok v s') :
    Ate s (number v) s' ∧ v < 256 ^ (bits / 8) ∧ s'.kind = none := by
  obtain ⟨⟨kind, size⟩, t, peeked, ran⟩ := and_then_inv ran
  obtain ⟨header, cached, _⟩ := next_kind_inv armed peeked
  dsimp only at ran
  cases header with
  | @byte b t low ate value =>
      dsimp only at ran
      rw [value] at ran
      split_ifs at ran with zero
      cases ran
      rw [number_low low zero]
      have below : b.toNat < 256 ^ 1 := b.toNat_lt
      refine ⟨⟨ate.r, ate.stack⟩, ?_, rfl⟩
      exact Nat.lt_of_lt_of_le below (Nat.pow_le_pow_right (by decide) room)
  | several several small ate =>
      cases kind with
      | byte => exact absurd rfl several
      | list => cases ran
      | string =>
          dsimp only at ran
          split_ifs at ran with wide
          obtain ⟨content, count, bytes, rearmed⟩ := read_integer_inv ran
          have bound := (minimal_length_le_iff (bits / 8) v).mp (by omega)
          rw [bytes]
          exact ⟨ate_trans ate content, bound, rearmed⟩

theorem bytes_inv {b : List UInt8} (armed : s.kind = none) (ran : Stream.bytes s = .ok b s') :
    Ate s (string b) s' ∧ s'.kind = none := by
  obtain ⟨⟨kind, size⟩, t, peeked, ran⟩ := and_then_inv ran
  obtain ⟨header, cached, _⟩ := next_kind_inv armed peeked
  dsimp only at ran
  cases header with
  | @byte first t low ate value =>
      cases ran
      rw [value, string_low low]
      exact ⟨⟨ate.r, ate.stack⟩, rfl⟩
  | several several small ate =>
      cases kind with
      | byte => exact absurd rfl several
      | list => cases ran
      | string =>
          obtain ⟨content, t', read, ran⟩ := and_then_inv ran
          split_ifs at ran with single
          cases ran
          obtain ⟨more, count, rearmed⟩ := read_full_inv read
          rw [← count] at single ate
          rw [string_behind_header single]
          exact ⟨ate_trans ate more, rearmed⟩

/-- A string that follows a zero byte array is the zero byte once more. -/
theorem bytes_stale {b : List UInt8} (stale : Stale s) (ran : Stream.bytes s = .ok b s') :
    b = [0] ∧ Ate s [] s' ∧ s'.kind = none := by
  rw [Stream.bytes, and_then_ok (next_kind_stale stale)] at ran
  cases ran
  rw [stale.byteval]
  exact ⟨rfl, ate_nothing rfl rfl, rfl⟩

theorem uint_stale {bits v : Nat} (stale : Stale s) : Stream.uint bits s ≠ .ok v s' := by
  intro ran
  rw [uint_cached stale.kind stale.kinderr, if_pos stale.byteval] at ran
  cases ran

theorem list_stale (stale : Stale s) : Stream.list s ≠ .ok size s' := by
  intro ran
  rw [Stream.list, and_then_ok (next_kind_stale stale)] at ran
  cases ran

/-- Where the stream stands after a value: behind it, or at a header that was left. -/
def Resumes : Bool → Stream → Prop
  | true, s => Stale s
  | false, s => s.kind = none

theorem byte_array_inv {n : Nat} {typ : String} {b : List UInt8} (armed : s.kind = none)
    (ran : decodeByteArray n typ s = .ok b s') :
    b.length = n ∧ Ate s (string b) s' ∧ Resumes (b = [0]) s' := by
  obtain ⟨⟨kind, size⟩, t, peeked, ran⟩ := and_then_inv ran
  obtain ⟨header, cached, calm⟩ := next_kind_inv armed peeked
  dsimp only at ran
  cases header with
  | @byte first t low ate value =>
      dsimp only at ran
      split_ifs at ran with none several
      have one : n = 1 := by omega
      dsimp only at ran
      rw [uint_cached cached calm, value] at ran
      by_cases zero : first = 0
      · -- Uint has failed and left the header where it was
        rw [if_pos zero] at ran
        cases ran
        subst zero
        exact ⟨one.symm, ate, cached, value, calm⟩
      · rw [if_neg zero] at ran
        dsimp only at ran
        rw [UInt8.ofNat_toNat] at ran
        cases ran
        rw [string_low low]
        have other : decide ([first] = [(0 : UInt8)]) = false :=
          decide_eq_false fun same => zero (List.head_eq_of_cons_eq same)
        rw [other]
        exact ⟨one.symm, ⟨ate.r, ate.stack⟩, rfl⟩
  | several several small ate =>
      cases kind with
      | byte => exact absurd rfl several
      | list => cases ran
      | string =>
          dsimp only at ran
          split_ifs at ran with long short
          have same : size = n := by omega
          obtain ⟨content, t', read, ran⟩ := and_then_inv ran
          split_ifs at ran with single
          cases ran
          obtain ⟨more, count, rearmed⟩ := read_full_inv read
          rw [same, ← count] at single ate
          have other : decide (b = [(0 : UInt8)]) = false := by
            apply decide_eq_false
            rintro rfl
            exact single ⟨rfl, by decide⟩
          rw [string_behind_header single, other]
          exact ⟨count, ate_trans ate more, rearmed⟩

/-- A byte array that follows a zero byte array is the zero byte once more, and the
header is still left behind. -/
theorem byte_array_stale {n : Nat} {typ : String} {b : List UInt8} (stale : Stale s)
    (ran : decodeByteArray n typ s = .ok b s') : b = [0] ∧ b.length = n ∧ s' = s := by
  rw [decodeByteArray, and_then_ok (next_kind_stale stale)] at ran
  dsimp only at ran
  split_ifs at ran with none several
  dsimp only at ran
  rw [uint_cached stale.kind stale.kinderr, if_pos stale.byteval] at ran
  cases ran
  refine ⟨rfl, ?_, rfl⟩
  rw [List.length_singleton]
  omega

end Scalars

section Lists

variable {s s' t t' : Stream} {n : Nat}

theorem list_inv (armed : s.kind = none) (ran : Stream.list s = .ok n t) :
    s.r = Library.Rlp.header 0xC0 n ++ t.r ∧
      t.stack = ⟨0, n⟩ :: charge s.stack (Library.Rlp.header 0xC0 n).length ∧ t.kind = none := by
  obtain ⟨⟨kind, size⟩, u, peeked, ran⟩ := and_then_inv ran
  obtain ⟨header, _, _⟩ := next_kind_inv armed peeked
  dsimp only at ran
  split_ifs at ran with other
  cases ran
  have list : kind = .list := not_not.mp other
  subst list
  cases header with
  | several several small ate =>
      refine ⟨ate.r, ?_, rfl⟩
      rw [ate.stack]
      rfl

theorem list_end_inv (ran : Stream.listEnd t' = .ok () s') :
    ∃ tos outer, t'.stack = tos :: outer ∧ tos.pos = tos.size ∧ s'.r = t'.r ∧
      s'.stack = charge outer tos.size ∧ s'.kind = none := by
  unfold Stream.listEnd at ran
  cases stack : t'.stack with
  | nil =>
      rw [stack] at ran
      cases ran
  | cons tos outer =>
      rw [stack] at ran
      dsimp only at ran
      split_ifs at ran with full
      cases ran
      exact ⟨tos, outer, rfl, not_not.mp full, rfl, rfl, rfl⟩

theorem framed_inv {parts : List (List UInt8)} (armed : s.kind = none)
    (opened : Stream.list s = .ok n t) (inner : Ate t parts.flatten t')
    (closed : Stream.listEnd t' = .ok () s') : Ate s (list parts) s' ∧ s'.kind = none := by
  obtain ⟨front, stack, _⟩ := list_inv armed opened
  obtain ⟨tos, outer, top, full, r, after, rearmed⟩ := list_end_inv closed
  rw [inner.stack, stack, charge, List.cons.injEq] at top
  obtain ⟨rfl, rfl⟩ := top
  have count : parts.flatten.length = n := by
    dsimp only at full
    omega
  refine ⟨⟨?_, ?_⟩, rearmed⟩
  · rw [front, inner.r, r, list, count, List.append_assoc]
  · rw [after, charge_charge, list, List.length_append, count]

end Lists

end PbftBlock.RlpAcceptance
