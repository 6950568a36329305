import PbftBlock.RlpRawValues

/-!
# Reading RLP from slices

`Split` and `CountValues` read headers from a byte slice, with a reader of their own
beside the one of the stream. Both readers find the same items: a kind and a content
behind a canonical header. On the slice that is the single byte `0x81` the slice reader
looks at a second byte that is not there.
-/

namespace PbftBlock.RlpSplit

open PbftBlock.Library.BigEndian PbftBlock.Library.FallibleMethods
open PbftBlock.RlpStream hiding readSize readKind header
open PbftBlock.RlpWriters PbftBlock.RlpDecoders PbftBlock.RlpAcceptance PbftBlock.RlpRawValues
open PbftBlock.RlpEncoding (headsize)

set_option autoImplicit false

/-- How the functions on slices fail: with an error, or with the panic of an index. -/
inductive SliceError where
  | refused (err : RlpError)
  | indexOutOfRange (index length : Nat)
deriving DecidableEq

def readSize (b : List UInt8) (slen : Nat) : Except SliceError Nat :=
  if b.length < slen then .error (.refused .unexpectedEOF)
  else
    let s := ofBytes (b.take slen)
    if s < 56 ∨ b.headD 0 = 0 then .error (.refused .canonSize) else .ok s

/-- A short string, unless it should have been a single byte. The first content byte is
not known to exist here. -/
def shortString (contentsize : Nat) (after : List UInt8) : Except SliceError (Kind × Nat × Nat) :=
  if contentsize = 1 then
    match after with
    | [] => .error (.indexOutOfRange 1 1)
    | first :: _ => if first < 128 then .error (.refused .canonSize) else .ok (.string, 1, 1)
  else .ok (.string, 1, contentsize)

def longValue (kind : Kind) (slen : Nat) (after : List UInt8) :
    Except SliceError (Kind × Nat × Nat) :=
  (readSize after slen).map fun size => (kind, slen + 1, size)

def readTag (b : UInt8) (after : List UInt8) : Except SliceError (Kind × Nat × Nat) :=
  if b < 0x80 then .ok (.byte, 0, 1)
  else if b < 0xB8 then shortString (b - 0x80).toNat after
  else if b < 0xC0 then longValue .string (b - 0xB7).toNat after
  else if b < 0xF8 then .ok (.list, 1, (b - 0xC0).toNat)
  else longValue .list (b - 0xF7).toNat after

def readKind (buf : List UInt8) : Except SliceError (Kind × Nat × Nat) :=
  match buf with
  | [] => .error (.refused .unexpectedEOF)
  | b :: after =>
      match readTag b after with
      | .error err => .error err
      | .ok (k, tagsize, contentsize) =>
          if buf.length - tagsize < contentsize then .error (.refused .valueTooLarge)
          else .ok (k, tagsize, contentsize)

def split (b : List UInt8) : Except SliceError (Kind × List UInt8 × List UInt8) :=
  (readKind b).map fun (k, ts, cs) => (k, (b.drop ts).take cs, b.drop (ts + cs))

section Headers

variable {kind : Kind} {size tagsize contentsize : Nat} {b : UInt8} {buf after : List UInt8}

def header (kind : Kind) (size : Nat) : List UInt8 :=
  Library.Rlp.header (smalltag kind).toNat size

theorem header_written (small : size < 2 ^ 64) : RlpStream.header kind size = header kind size := by
  cases kind with
  | list => exact header_list small
  | byte => exact string_header small
  | string => exact string_header small

theorem header_short (short : size ≤ 55) :
    header kind size = [UInt8.ofNat ((smalltag kind).toNat + size)] := by
  rw [header, Library.Rlp.header, if_pos short]

theorem header_long (long : 56 ≤ size) :
    header kind size =
      UInt8.ofNat ((smalltag kind).toNat + 55 + (minimal size).length) :: minimal size := by
  rw [header, Library.Rlp.header, if_neg (by omega)]

theorem read_size_iff {slen : Nat} (some : 1 ≤ slen) :
    readSize buf slen = .ok size ↔
      56 ≤ size ∧ (minimal size).length = slen ∧ ∃ tail, buf = minimal size ++ tail := by
  constructor
  · intro ran
    unfold readSize at ran
    dsimp only at ran
    split_ifs at ran with short refused
    rw [not_or] at refused
    obtain ⟨large, leading⟩ := refused
    have value := Except.ok.inj ran
    have canonical : ∀ more, buf.take slen ≠ 0 :: more := by
      intro more zero
      apply leading
      obtain ⟨slen, rfl⟩ : ∃ less, slen = less + 1 := ⟨slen - 1, by omega⟩
      cases buf with
      | nil => rfl
      | cons first rest =>
          rw [List.take_succ_cons] at zero
          exact (List.cons.inj zero).1
    have written : minimal size = buf.take slen := by
      rw [← value]
      exact minimal_of_bytes canonical
    refine ⟨by omega, ?_, buf.drop slen, ?_⟩
    · rw [written, List.length_take]
      omega
    · rw [written, List.take_append_drop]
  · rintro ⟨large, rfl, tail, rfl⟩
    have positive : size ≠ 0 := by omega
    obtain ⟨first, others, bytes, nonzero⟩ := minimal_leading positive
    have leading : ¬(size < 56 ∨ (minimal size ++ tail).headD 0 = 0) := by
      rw [bytes]
      rintro (small | zero)
      · omega
      · exact nonzero zero
    unfold readSize
    rw [if_neg (by rw [List.length_append]; omega), List.take_left, of_bytes_minimal]
    exact if_neg leading

/-- A first byte, or a canonical header, with the sizes of tag and content. -/
inductive Tagged : List UInt8 → Kind → Nat → Nat → Prop where
  | byte {b : UInt8} {after : List UInt8} (low : b < 0x80) : Tagged (b :: after) .byte 0 1
  | several {kind : Kind} {size : Nat} {after : List UInt8} (several : kind ≠ .byte)
      (small : size < 2 ^ 64) (single : kind = .string → size = 1 → 0x80 ≤ after.headD 0) :
      Tagged (header kind size ++ after) kind (header kind size).length size

theorem read_tag_nat (b : UInt8) (after : List UInt8) :
    readTag b after =
      if b.toNat < 128 then .ok (.byte, 0, 1)
      else if b.toNat < 184 then shortString (b.toNat - 128) after
      else if b.toNat < 192 then longValue .string (b.toNat - 183) after
      else if b.toNat < 248 then .ok (.list, 1, b.toNat - 192)
      else longValue .list (b.toNat - 247) after := by
  have sub : ∀ tag : UInt8, tag.toNat ≤ b.toNat → (b - tag).toNat = b.toNat - tag.toNat :=
    fun tag above => UInt8.toNat_sub_of_le _ _ (UInt8.le_iff_toNat_le.mpr above)
  have string := sub 0x80
  have longString := sub 0xB7
  have list := sub 0xC0
  have longList := sub 0xF7
  simp only [UInt8.reduceToNat] at string longString list longList
  simp only [readTag, UInt8.lt_iff_toNat_lt, UInt8.reduceToNat]
  split_ifs
  · rfl
  · rw [string (by omega)]
  · rw [longString (by omega)]
  · rw [list (by omega)]
  · rw [longList (by omega)]

theorem short_string_iff :
    shortString size after = .ok (kind, tagsize, contentsize) ↔
      kind = .string ∧ tagsize = 1 ∧ contentsize = size ∧ (size = 1 → 0x80 ≤ after.headD 0) := by
  unfold shortString
  split_ifs with single
  · subst single
    cases after with
    | nil =>
        refine iff_of_false (fun ran => by cases ran) ?_
        rintro ⟨_, _, _, present⟩
        exact absurd (present rfl) (by decide)
    | cons first rest =>
        dsimp only [List.headD_cons]
        rw [← UInt8.not_lt]
        split_ifs with low
        · apply iff_of_false (fun ran => by cases ran)
          rintro ⟨_, _, _, high⟩
          exact high rfl low
        · constructor
          · intro ran
            cases ran
            exact ⟨rfl, rfl, rfl, fun _ => low⟩
          · rintro ⟨rfl, rfl, rfl, _⟩
            rfl
  · constructor
    · intro ran
      cases ran
      exact ⟨rfl, rfl, rfl, fun one => absurd one single⟩
    · rintro ⟨rfl, rfl, rfl, _⟩
      rfl

theorem long_value_iff {found : Kind} {slen : Nat} (some : 1 ≤ slen) :
    longValue found slen after = .ok (kind, tagsize, contentsize) ↔
      kind = found ∧ tagsize = slen + 1 ∧ 56 ≤ contentsize ∧
        (minimal contentsize).length = slen ∧ ∃ tail, after = minimal contentsize ++ tail := by
  unfold longValue
  rw [← read_size_iff some]
  cases readSize after slen with
  | error err =>
      apply iff_of_false (fun ran => by cases ran)
      rintro ⟨_, _, ran⟩
      cases ran
  | ok size =>
      constructor
      · intro ran
        cases ran
        exact ⟨rfl, rfl, rfl⟩
      · rintro ⟨rfl, rfl, ran⟩
        cases ran
        rfl

theorem tagged_long (found : Kind) (several : found ≠ .byte) {slen : Nat} (narrow : slen ≤ 8)
    (tag : b.toNat = (smalltag found).toNat + 55 + slen) (some : 1 ≤ slen)
    (ran : longValue found slen after = .ok (kind, tagsize, contentsize)) :
    Tagged (b :: after) kind tagsize contentsize := by
  obtain ⟨rfl, rfl, long, count, tail, rfl⟩ := (long_value_iff some).mp ran
  have front : header kind contentsize = b :: minimal contentsize := by
    rw [header_long long, count, ← tag, UInt8.ofNat_toNat]
  have tagged : Tagged (header kind contentsize ++ tail) kind (header kind contentsize).length
      contentsize :=
    .several several (size_lt_of_minimal count narrow) fun _ one => by omega
  rw [front, List.length_cons, count] at tagged
  exact tagged

theorem tagged_short (several : kind ≠ .byte) (short : size ≤ 55)
    (tag : b.toNat = (smalltag kind).toNat + size)
    (single : kind = .string → size = 1 → 0x80 ≤ after.headD 0) :
    Tagged (b :: after) kind 1 size := by
  have front : header kind size = [b] := by
    rw [header_short short, ← tag, UInt8.ofNat_toNat]
  have tagged : Tagged (header kind size ++ after) kind (header kind size).length size :=
    .several several (by omega) single
  rw [front] at tagged
  exact tagged

theorem read_tag_inv (ran : readTag b after = .ok (kind, tagsize, contentsize)) :
    Tagged (b :: after) kind tagsize contentsize := by
  have bound := b.toNat_lt
  have strings : (smalltag .string).toNat = 128 := rfl
  have lists : (smalltag .list).toNat = 192 := rfl
  rw [read_tag_nat] at ran
  split_ifs at ran with low shortString longString shortList
  · cases ran
    exact .byte (UInt8.lt_iff_toNat_lt.mpr low)
  · obtain ⟨rfl, rfl, size, single⟩ := short_string_iff.mp ran
    rw [← size] at single
    exact tagged_short (by decide) (by omega) (by omega) fun _ => single
  · exact tagged_long .string (by decide) (by omega) (by omega) (by omega) ran
  · cases ran
    exact tagged_short (by decide) (by omega) (by omega) fun other => by cases other
  · exact tagged_long .list (by decide) (by omega) (by omega) (by omega) ran

/-- The first byte of a header decides alone how the header goes on. -/
theorem read_tag_header (several : kind ≠ .byte) (small : size < 2 ^ 64) {rest : List UInt8}
    (single : kind = .string → size = 1 → 0x80 ≤ rest.headD 0)
    (front : header kind size ++ rest = b :: after) :
    readTag b after = .ok (kind, (header kind size).length, size) := by
  have tags : kind = .string ∧ (smalltag kind).toNat = 128 ∨
      kind = .list ∧ (smalltag kind).toNat = 192 := by
    cases kind with
    | byte => exact absurd rfl several
    | string => exact .inl ⟨rfl, rfl⟩
    | list => exact .inr ⟨rfl, rfl⟩
  rw [read_tag_nat]
  by_cases short : size ≤ 55
  · rw [header_short short, List.singleton_append] at front
    obtain ⟨rfl, rfl⟩ := List.cons.inj front
    rw [header_short short, UInt8.toNat_ofNat']
    rcases tags with ⟨rfl, tag⟩ | ⟨rfl, tag⟩
    · rw [tag, Nat.mod_eq_of_lt (by omega), if_neg (by omega), if_pos (by omega),
        Nat.add_sub_cancel_left]
      exact short_string_iff.mpr ⟨rfl, rfl, rfl, single rfl⟩
    · rw [tag, Nat.mod_eq_of_lt (by omega), if_neg (by omega), if_neg (by omega),
        if_neg (by omega), if_pos (by omega), Nat.add_sub_cancel_left]
      rfl
  · have narrow := (minimal_length_le_iff 8 size).mpr small
    have wide := (minimal_length_le_iff 0 size).not.mpr (by omega)
    rw [header_long (by omega), List.cons_append] at front
    obtain ⟨rfl, rfl⟩ := List.cons.inj front
    rw [header_long (by omega), UInt8.toNat_ofNat', List.length_cons]
    rcases tags with ⟨rfl, tag⟩ | ⟨rfl, tag⟩
    · rw [tag, Nat.mod_eq_of_lt (by omega), if_neg (by omega), if_neg (by omega),
        if_pos (by omega), Nat.add_sub_cancel_left]
      exact (long_value_iff (by omega)).mpr ⟨rfl, rfl, by omega, rfl, _, rfl⟩
    · rw [tag, Nat.mod_eq_of_lt (by omega), if_neg (by omega), if_neg (by omega),
        if_neg (by omega), if_neg (by omega), Nat.add_sub_cancel_left]
      exact (long_value_iff (by omega)).mpr ⟨rfl, rfl, by omega, rfl, _, rfl⟩

theorem tagged_bounds (tagged : Tagged buf kind tagsize contentsize) :
    tagsize ≤ buf.length ∧ 0 < tagsize + contentsize := by
  cases tagged with
  | byte low => exact ⟨Nat.zero_le _, Nat.one_pos⟩
  | several several small single =>
      have front := Library.Rlp.header_length_pos (smalltag kind).toNat contentsize
      rw [List.length_append]
      exact ⟨Nat.le_add_right _ _, Nat.add_pos_left front _⟩

/-- A header is read when it is canonical and its content is there. -/
theorem read_kind_iff :
    readKind buf = .ok (kind, tagsize, contentsize) ↔
      Tagged buf kind tagsize contentsize ∧ tagsize + contentsize ≤ buf.length := by
  constructor
  · intro ran
    unfold readKind at ran
    cases buf with
    | nil => cases ran
    | cons b after =>
        dsimp only at ran
        cases tag : readTag b after with
        | error err =>
            rw [tag] at ran
            cases ran
        | ok sizes =>
            rw [tag] at ran
            dsimp only at ran
            split_ifs at ran with large
            cases ran
            have tagged := read_tag_inv tag
            have bounds := tagged_bounds tagged
            exact ⟨tagged, by omega⟩
  · rintro ⟨tagged, whole⟩
    obtain ⟨b, after, rfl⟩ : ∃ b after, buf = b :: after := by
      apply List.exists_cons_of_length_pos
      have bounds := tagged_bounds tagged
      omega
    have tag : readTag b after = .ok (kind, tagsize, contentsize) := by
      generalize front : b :: after = bytes at tagged
      cases tagged with
      | byte low =>
          obtain ⟨rfl, rfl⟩ := List.cons.inj front
          exact if_pos low
      | several several small single => exact read_tag_header several small single front.symm
    rw [readKind, tag]
    exact if_neg (by omega)

theorem long_value_returns (kind : Kind) (slen : Nat) (after : List UInt8) (index length : Nat) :
    longValue kind slen after ≠ .error (.indexOutOfRange index length) := by
  unfold longValue readSize
  dsimp only
  split_ifs <;> exact fun failed => by cases failed

theorem short_string_panics {index length : Nat}
    (panicked : shortString size after = .error (.indexOutOfRange index length)) :
    size = 1 ∧ after = [] ∧ index = 1 ∧ length = 1 := by
  unfold shortString at panicked
  split_ifs at panicked with single
  cases after with
  | nil =>
      cases panicked
      exact ⟨single, rfl, rfl, rfl⟩
  | cons first rest =>
      dsimp only at panicked
      split_ifs at panicked
      cases panicked

theorem read_tag_panics {index length : Nat}
    (panicked : readTag b after = .error (.indexOutOfRange index length)) :
    b = 0x81 ∧ after = [] ∧ index = 1 ∧ length = 1 := by
  rw [read_tag_nat] at panicked
  split_ifs at panicked with low short
  · obtain ⟨size, none, places⟩ := short_string_panics panicked
    have tag : b.toNat = (0x81 : UInt8).toNat := by
      change b.toNat = 129
      omega
    exact ⟨UInt8.toNat.inj tag, none, places⟩
  · exact absurd panicked (long_value_returns _ _ _ _ _)
  · exact absurd panicked (long_value_returns _ _ _ _ _)

/-- The panic needs a slice that ends after the tag of a string of one byte. -/
theorem read_kind_panics_iff (buf : List UInt8) (index length : Nat) :
    readKind buf = .error (.indexOutOfRange index length) ↔
      buf = [0x81] ∧ index = 1 ∧ length = 1 := by
  constructor
  · intro ran
    unfold readKind at ran
    cases buf with
    | nil => cases ran
    | cons b after =>
        dsimp only at ran
        cases tag : readTag b after with
        | ok sizes =>
            rw [tag] at ran
            dsimp only at ran
            split_ifs at ran
            cases ran
        | error err =>
            rw [tag] at ran
            cases ran
            obtain ⟨rfl, rfl, places⟩ := read_tag_panics tag
            exact ⟨rfl, places⟩
  · rintro ⟨rfl, rfl, rfl⟩
    rfl

end Headers

section Items

variable {kind : Kind} {content item rest b : List UInt8} {s s' : Stream}

/-- An item of the given kind and content: a single byte, or the content behind its
canonical header. -/
inductive Framed : Kind → List UInt8 → List UInt8 → Prop where
  | byte {b : UInt8} (low : b < 0x80) : Framed .byte [b] [b]
  | several {kind : Kind} {content : List UInt8} (several : kind ≠ .byte)
      (small : content.length < 2 ^ 64)
      (single : kind = .string → content.length = 1 → 0x80 ≤ content.headD 0) :
      Framed kind content (header kind content.length ++ content)

theorem head_append (content rest : List UInt8) (single : content.length = 1) :
    (content ++ rest).headD 0 = content.headD 0 := by
  obtain ⟨first, rfl⟩ := List.length_eq_one_iff.mp single
  rfl

theorem split_sizes {ts cs : Nat} (sizes : readKind b = .ok (kind, ts, cs)) :
    split b = .ok (kind, (b.drop ts).take cs, b.drop (ts + cs)) := by
  rw [split, sizes]
  rfl

theorem split_iff :
    split b = .ok (kind, content, rest) ↔ ∃ item, Framed kind content item ∧ b = item ++ rest := by
  constructor
  · intro ran
    unfold split at ran
    cases sizes : readKind b with
    | error err =>
        rw [sizes] at ran
        cases ran
    | ok found =>
        obtain ⟨k, ts, cs⟩ := found
        rw [sizes] at ran
        cases ran
        obtain ⟨tagged, whole⟩ := read_kind_iff.mp sizes
        cases tagged with
        | byte low => exact ⟨_, .byte low, rfl⟩
        | @several _ _ after several small single =>
            rw [List.length_append] at whole
            have count : (after.take cs).length = cs := by
              rw [List.length_take]
              omega
            rw [List.drop_left, ← List.drop_drop, List.drop_left]
            refine ⟨header kind (after.take cs).length ++ after.take cs,
              .several several (by omega) ?_, ?_⟩
            · intro string one
              rw [← head_append _ (after.drop cs) one, List.take_append_drop]
              exact single string (by omega)
            · rw [count, List.append_assoc, List.take_append_drop]
  · rintro ⟨item, framed, rfl⟩
    cases framed with
    | @byte first low =>
        have tagged : Tagged ([first] ++ rest) .byte 0 1 := .byte low
        exact split_sizes (read_kind_iff.mpr ⟨tagged, by simp⟩)
    | several several small single =>
        have tagged : Tagged (header kind content.length ++ (content ++ rest)) kind
            (header kind content.length).length content.length := by
          apply Tagged.several several small
          intro string one
          rw [head_append _ _ one]
          exact single string one
        have sizes := read_kind_iff.mpr ⟨tagged, by simp⟩
        rw [List.append_assoc, split_sizes sizes, List.drop_left, List.take_left,
          ← List.drop_drop, List.drop_left, List.drop_left]

/-- The next item of a stream: `Kind` and then `Bytes`, or the content that `Raw` takes
of a list. -/
def readItem : StreamM (Kind × List UInt8) :=
  andThen Stream.nextKind fun found =>
    match found.1 with
    | .list => andThen Stream.raw fun raw => .ok (.list, raw.drop (headsize found.2))
    | kind => andThen Stream.bytes fun content => .ok (kind, content)

structure Fresh (s : Stream) (bytes : List UInt8) : Prop where
  r : s.r = bytes
  armed : s.kind = none
  stack : s.stack = []
  limited : s.limited = true
  remaining : s.remaining = bytes.length

theorem fresh_new (b : List UInt8) : Fresh (newStream b 0) b := ⟨rfl, rfl, rfl, rfl, rfl⟩

theorem fresh_fits (fresh : Fresh s (item ++ rest)) : Fits s item.length where
  limited := fresh.limited
  present := by
    rw [fresh.r, List.length_append]
    exact Nat.le_add_right _ _
  allowed := by
    rw [fresh.remaining, List.length_append]
    exact Nat.le_add_right _ _
  inside := by
    rw [fresh.stack]
    rfl

theorem fresh_unended (fresh : Fresh s b) : atListEnd s.stack = false := by
  rw [fresh.stack]
  rfl

theorem fresh_consumed (fresh : Fresh s (item ++ rest)) (consumed : Consumed s item.length s') :
    Fresh s' rest where
  r := by rw [consumed.r, fresh.r, List.drop_left]
  armed := consumed.armed
  stack := by
    rw [consumed.stack, fresh.stack]
    rfl
  limited := consumed.limited.trans fresh.limited
  remaining := by
    rw [consumed.remaining, fresh.remaining, List.length_append, Nat.add_sub_cancel_left]

theorem bytes_asked {found : Kind × Nat} (asked : Stream.nextKind s = .ok found s') :
    Stream.bytes s' = Stream.bytes s := by
  unfold Stream.bytes
  rw [and_then_ok asked, and_then_ok (next_kind_again asked)]

theorem remade_list_length {size : Nat} (small : size < 2 ^ 64) :
    (remade .list size).length = headsize size := by
  have front : remade .list size = Library.Rlp.header 0xC0 size := puthead_header small
  rw [front, headsize_header 0xC0]

theorem read_item_framed (framed : Framed kind content item) (fresh : Fresh s (item ++ rest)) :
    ∃ s', readItem s = .ok (kind, content) s' ∧ Fresh s' rest := by
  have fits := fresh_fits fresh
  have unended := fresh_unended fresh
  cases framed with
  | @byte first low =>
      have asked := next_kind_byte low fresh.armed unended fits fresh.r
      have taken : Stream.bytes (s.peeked 1 .byte 0 first) =
          .ok [first] { s.peeked 1 .byte 0 first with kind := none } := by
        rw [Stream.bytes, and_then_ok (next_kind_again asked)]
        rfl
      refine ⟨{ s.peeked 1 .byte 0 first with kind := none }, ?_,
        fresh_consumed fresh ⟨rfl, rfl, rfl, rfl, rfl⟩⟩
      rw [readItem, and_then_ok asked]
      exact and_then_ok taken
  | several several small single =>
      rw [← header_written small] at fresh fits
      have next := fresh.r
      rw [List.append_assoc] at next
      have room := fits
      rw [List.length_append] at room
      have asked := next_kind_header several small fresh.armed unended room next
      rw [readItem, and_then_ok asked]
      cases kind with
      | byte => exact absurd rfl several
      | string =>
          have long : ¬(content.length = 1 ∧ content.headD 0 ≤ 0x7F) := by
            rintro ⟨one, low⟩
            have high := single rfl one
            exact absurd (UInt8.le_trans high low) (by decide)
          have bytes : RlpEncoding.stringBytes content =
              RlpStream.header .string content.length ++ content := by
            rw [RlpEncoding.stringBytes, if_neg long]
            rfl
          rw [← bytes] at fits fresh
          obtain ⟨s', ran, consumed⟩ := bytes_written small fresh.armed unended fits fresh.r
          refine ⟨s', ?_, fresh_consumed fresh consumed⟩
          rw [← bytes_asked asked] at ran
          exact and_then_ok ran
      | list =>
          obtain ⟨s', ran, consumed⟩ :=
            takes_raw_content several small s rest fresh.armed unended fresh.r fits
          refine ⟨s', ?_, fresh_consumed fresh consumed⟩
          rw [← raw_asked asked] at ran
          dsimp only
          rw [and_then_ok ran, ← remade_list_length small, List.drop_left]

theorem read_item_inv (armed : s.kind = none) (ran : readItem s = .ok (kind, content) s') :
    ∃ item, Framed kind content item ∧ s.r = item ++ s'.r := by
  obtain ⟨⟨found, size⟩, t, asked, ran⟩ := and_then_inv ran
  obtain ⟨front, _, _⟩ := next_kind_inv armed asked
  have again := next_kind_again asked
  dsimp only at ran
  cases front with
  | @byte first _ low ate value =>
      obtain ⟨bytes, t', taken, ran⟩ := and_then_inv ran
      rw [Stream.bytes, and_then_ok again] at taken
      cases taken
      cases ran
      rw [value]
      exact ⟨_, .byte low, ate.r⟩
  | several several small ate =>
      cases found with
      | byte => exact absurd rfl several
      | string =>
          obtain ⟨bytes, t', taken, ran⟩ := and_then_inv ran
          rw [Stream.bytes, and_then_ok again] at taken
          obtain ⟨bytes', t'', read, taken⟩ := and_then_inv taken
          split_ifs at taken with single
          cases taken
          cases ran
          obtain ⟨more, rfl, _⟩ := read_full_inv read
          refine ⟨_, .several several small ?_, (ate_trans ate more).r⟩
          intro _ one
          rw [← UInt8.not_lt]
          exact fun low => single ⟨one, low⟩
      | list =>
          obtain ⟨raw, t', taken, ran⟩ := and_then_inv ran
          rw [Stream.raw, and_then_ok again] at taken
          obtain ⟨bytes, t'', read, taken⟩ := and_then_inv taken
          cases taken
          cases ran
          obtain ⟨more, rfl, _⟩ := read_full_inv read
          have cut : (remade .list bytes.length ++ bytes).drop (headsize bytes.length) = bytes := by
            rw [← remade_list_length small, List.drop_left]
          refine ⟨header .list bytes.length ++ bytes, ?_, (ate_trans ate more).r⟩
          change Framed .list ((remade .list bytes.length ++ bytes).drop (headsize bytes.length)) _
          rw [cut]
          exact .several several small fun other => by cases other

theorem fresh_after (fresh : Fresh s b) (ran : readItem s = .ok (kind, content) s') :
    Fresh s' s'.r := by
  obtain ⟨item, framed, bytes⟩ := read_item_inv fresh.armed ran
  rw [fresh.r] at bytes
  subst bytes
  obtain ⟨t, ran', fresh'⟩ := read_item_framed framed fresh
  rw [ran] at ran'
  cases ran'
  exact fresh'

theorem read_item_iff (fresh : Fresh s b) :
    (∃ s', readItem s = .ok (kind, content) s' ∧ s'.r = rest) ↔
      split b = .ok (kind, content, rest) := by
  rw [split_iff]
  constructor
  · rintro ⟨s', ran, rfl⟩
    rw [← fresh.r]
    exact read_item_inv fresh.armed ran
  · rintro ⟨item, framed, rfl⟩
    obtain ⟨s', ran, fresh'⟩ := read_item_framed framed fresh
    exact ⟨s', ran, fresh'.r⟩

end Items

section Counting

variable {i n : Nat} {b : List UInt8} {s s' : Stream}

theorem read_kind_advances {sizes : Kind × Nat × Nat} (ran : readKind b = .ok sizes) :
    (b.drop (sizes.2.1 + sizes.2.2)).length < b.length := by
  obtain ⟨kind, tagsize, contentsize⟩ := sizes
  obtain ⟨tagged, whole⟩ := read_kind_iff.mp ran
  have bounds := tagged_bounds tagged
  rw [List.length_drop]
  dsimp only
  omega

/-- The loop of `CountValues`. Every header takes at least one byte away. -/
def countFrom (i : Nat) (b : List UInt8) : Except SliceError Nat :=
  if b = [] then .ok i
  else
    match _ : readKind b with
    | .error err => .error err
    | .ok sizes => countFrom (i + 1) (b.drop (sizes.2.1 + sizes.2.2))
termination_by b.length
decreasing_by exact read_kind_advances ‹_›

def countValues (b : List UInt8) : Except SliceError Nat := countFrom 0 b

def readItems : Nat → StreamM (List (Kind × List UInt8))
  | 0 => .ok []
  | n + 1 => andThen readItem fun item => andThen (readItems n) fun items => .ok (item :: items)

def ReadsItems (s : Stream) (n : Nat) (rest : List UInt8) : Prop :=
  ∃ items s', readItems n s = .ok items s' ∧ s'.r = rest

theorem reads_items_zero {rest : List UInt8} : ReadsItems s 0 rest ↔ s.r = rest := by
  constructor
  · rintro ⟨items, s', ran, left⟩
    cases ran
    exact left
  · intro left
    exact ⟨[], s, rfl, left⟩

theorem reads_items_succ {rest : List UInt8} :
    ReadsItems s (n + 1) rest ↔ ∃ item s', readItem s = .ok item s' ∧ ReadsItems s' n rest := by
  constructor
  · rintro ⟨items, t, ran, left⟩
    obtain ⟨item, s', first, ran⟩ := and_then_inv ran
    obtain ⟨items', t', later, ran⟩ := and_then_inv ran
    cases ran
    exact ⟨item, s', first, items', t, later, left⟩
  · rintro ⟨item, s', first, items, t, later, left⟩
    refine ⟨item :: items, t, ?_, left⟩
    rw [readItems, and_then_ok first, and_then_ok later]

theorem reads_items_none {rest : List UInt8} (fresh : Fresh s b) {err : SliceError}
    (failed : readKind b = .error err) : ReadsItems s n rest ↔ n = 0 ∧ b = rest := by
  cases n with
  | zero =>
      rw [reads_items_zero, fresh.r]
      exact (and_iff_right rfl).symm
  | succ n =>
      refine iff_of_false ?_ (by simp)
      rw [reads_items_succ]
      rintro ⟨⟨kind, content⟩, s', first, _⟩
      have cut := (read_item_iff fresh).mp ⟨s', first, rfl⟩
      rw [split, failed] at cut
      cases cut

theorem reads_items_next (fresh : Fresh s b) {sizes : Kind × Nat × Nat}
    (ran : readKind b = .ok sizes) :
    ∃ s', Fresh s' (b.drop (sizes.2.1 + sizes.2.2)) ∧
      ∀ n rest, ReadsItems s (n + 1) rest ↔ ReadsItems s' n rest := by
  obtain ⟨kind, ts, cs⟩ := sizes
  obtain ⟨s', first, left⟩ := (read_item_iff fresh).mpr (split_sizes ran)
  have fresh' := fresh_after fresh first
  rw [left] at fresh'
  refine ⟨s', fresh', ?_⟩
  intro n rest
  rw [reads_items_succ]
  constructor
  · rintro ⟨item, t, other, later⟩
    rw [first] at other
    cases other
    exact later
  · intro later
    exact ⟨_, s', first, later⟩

theorem count_from_iff (fresh : Fresh s b) :
    countFrom i b = .ok n ↔ ∃ k, n = i + k ∧ ReadsItems s k [] := by
  -- the induction follows the loop; the stream is read along with it
  fun_induction countFrom i b generalizing s with
  | case1 i =>
      have failed : readKind [] = .error (.refused .unexpectedEOF) := rfl
      simp only [reads_items_none fresh failed]
      constructor
      · intro done
        exact ⟨0, (Except.ok.inj done).symm, rfl, trivial⟩
      · rintro ⟨k, rfl, rfl, _⟩
        rfl
  | case2 i b some err failed =>
      refine iff_of_false (fun done => by cases done) ?_
      rintro ⟨k, _, reads⟩
      exact some ((reads_items_none fresh failed).mp reads).2
  | case3 i b some sizes ran induction =>
      obtain ⟨s', fresh', later⟩ := reads_items_next fresh ran
      rw [induction fresh']
      constructor
      · rintro ⟨k, rfl, reads⟩
        exact ⟨k + 1, by omega, (later k []).mpr reads⟩
      · rintro ⟨k, rfl, reads⟩
        cases k with
        | zero => exact absurd (fresh.r.symm.trans (reads_items_zero.mp reads)) some
        | succ k => exact ⟨k, by omega, (later k []).mp reads⟩

theorem count_from_panics_iff (fresh : Fresh s b) (index length : Nat) :
    countFrom i b = .error (.indexOutOfRange index length) ↔
      index = 1 ∧ length = 1 ∧ ∃ k, ReadsItems s k [0x81] := by
  fun_induction countFrom i b generalizing s with
  | case1 i =>
      have failed : readKind [] = .error (.refused .unexpectedEOF) := rfl
      refine iff_of_false (fun panicked => by cases panicked) ?_
      rintro ⟨_, _, k, reads⟩
      have left := ((reads_items_none fresh failed).mp reads).2
      cases left
  | case2 i b some err failed =>
      have stops : (∃ k, ReadsItems s k [0x81]) ↔ b = [0x81] := by
        simp only [reads_items_none fresh failed]
        constructor
        · rintro ⟨_, _, same⟩
          exact same
        · intro same
          exact ⟨0, rfl, same⟩
      have panics := read_kind_panics_iff b index length
      rw [failed] at panics
      rw [Except.error.injEq] at panics ⊢
      rw [panics, stops]
      tauto
  | case3 i b some sizes ran induction =>
      obtain ⟨s', fresh', later⟩ := reads_items_next fresh ran
      rw [induction fresh']
      refine and_congr_right fun _ => and_congr_right fun _ => ?_
      constructor
      · rintro ⟨k, reads⟩
        exact ⟨k + 1, (later k _).mpr reads⟩
      · rintro ⟨k, reads⟩
        cases k with
        | zero =>
            have lone : b = [0x81] := fresh.r.symm.trans (reads_items_zero.mp reads)
            rw [lone] at ran
            cases ran
        | succ k => exact ⟨k, (later k _).mp reads⟩

end Counting

section Agreement

/-- `Split` returns, and what a stream over the same bytes reads first. -/
structure SplitAgrees (b : List UInt8) : Prop where
  returns : ∀ index length, split b ≠ .error (.indexOutOfRange index length)
  same : ∀ kind content rest, split b = .ok (kind, content, rest) ↔
    ∃ s', readItem (newStream b 0) = .ok (kind, content) s' ∧ s'.r = rest

/-- `CountValues` returns, and the number of items a stream reads up to the end. -/
structure CountAgrees (b : List UInt8) : Prop where
  returns : ∀ index length, countValues b ≠ .error (.indexOutOfRange index length)
  same : ∀ n, countValues b = .ok n ↔ ReadsItems (newStream b 0) n []

theorem split_panics_iff {b : List UInt8} {index length : Nat} :
    split b = .error (.indexOutOfRange index length) ↔ b = [0x81] ∧ index = 1 ∧ length = 1 := by
  rw [← read_kind_panics_iff b index length, split]
  cases readKind b with
  | error err =>
      change Except.error err = _ ↔ _
      rw [Except.error.injEq, Except.error.injEq]
  | ok sizes =>
      exact iff_of_false (fun panicked => by cases panicked) fun panicked => by cases panicked

theorem split_agrees_iff (b : List UInt8) : SplitAgrees b ↔ b ≠ [0x81] := by
  constructor
  · rintro ⟨returns, _⟩ rfl
    exact returns 1 1 rfl
  · intro other
    refine ⟨?_, fun kind content rest => (read_item_iff (fresh_new b)).symm⟩
    intro index length panicked
    exact other (split_panics_iff.mp panicked).1

theorem count_agrees_iff (b : List UInt8) :
    CountAgrees b ↔ ∀ n, ¬ReadsItems (newStream b 0) n [0x81] := by
  have panics := count_from_panics_iff (i := 0) (fresh_new b)
  constructor
  · rintro ⟨returns, _⟩ n reads
    exact returns 1 1 ((panics 1 1).mpr ⟨rfl, rfl, n, reads⟩)
  · intro never
    refine ⟨?_, ?_⟩
    · intro index length panicked
      obtain ⟨_, _, n, reads⟩ := (panics index length).mp panicked
      exact never n reads
    · intro n
      rw [countValues, count_from_iff (fresh_new b)]
      simp

/-- The readers of slices and streams agree but for the panics on a lone `0x81`. -/
theorem rlp_readers_agree_iff (b : List UInt8) :
    (SplitAgrees b ↔ b ≠ [0x81]) ∧
      (CountAgrees b ↔ ∀ n, ¬ReadsItems (newStream b 0) n [0x81]) :=
  ⟨split_agrees_iff b, count_agrees_iff b⟩

/-- The tag of a string of one byte at the end of the slice: both functions index past
it, while a stream refuses the value as too large. -/
theorem lone_tag_panics :
    split [0x81] = .error (.indexOutOfRange 1 1) ∧
      countValues [5, 0x81] = .error (.indexOutOfRange 1 1) ∧
      ¬SplitAgrees [0x81] ∧ ¬CountAgrees [5, 0x81] := by
  have reads : ReadsItems (newStream [5, 0x81] 0) 1 [0x81] :=
    ⟨[(.byte, [5])], _, rfl, rfl⟩
  have counted : countValues [5, 0x81] = .error (.indexOutOfRange 1 1) :=
    (count_from_panics_iff (fresh_new _) 1 1).mpr ⟨rfl, rfl, 1, reads⟩
  refine ⟨rfl, counted, ?_, ?_⟩
  · intro agrees
    exact agrees.returns 1 1 rfl
  · intro agrees
    exact agrees.returns 1 1 counted

end Agreement

end PbftBlock.RlpSplit
