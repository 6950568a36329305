import PbftBlock.RlpListEnds

/-!
# Raw values

`Raw` returns a value with its header, which has been read by then and is made
again. For strings of 56 bytes and more the tag of the new header is one too large.
All other values come back as they were, at any place of any stream.
-/

namespace PbftBlock.RlpRawValues

open PbftBlock.Library.BigEndian PbftBlock.Library.FallibleMethods
open PbftBlock.RlpStream PbftBlock.RlpWriters PbftBlock.RlpDecoders PbftBlock.RlpListEnds
open PbftBlock.RlpEncoding hiding encodeToBytes encode
open PbftBlock.Library.Rlp (string list list_length string_length_pos header_length_pos)

set_option autoImplicit false

section Unlimited

variable {α β : Type} {s : Stream}

def capped (s : Stream) : Stream := { s with limited := true, remaining := s.r.length }

structure Caps (s t : Stream) : Prop where
  free : s.limited = false
  same : t = capped s

/-- Without a limit the method does what it does when the limit is the input, as far as
it succeeds there or finds the end of a list. -/
def Uncapped (method : StreamM α) : Prop :=
  ∀ s, s.limited = false →
    (∀ value t, method (capped s) = .ok value t → ∃ s', method s = .ok value s' ∧ Caps s' t) ∧
    (∀ t, method (capped s) = .error .eol t → ∃ s', method s = .error .eol s' ∧ Caps s' t)

theorem uncapped_of_no_eol {method : StreamM α} (calm : NoEol method)
    (succeeds : ∀ s, s.limited = false → ∀ value t, method (capped s) = .ok value t →
      ∃ s', method s = .ok value s' ∧ Caps s' t) : Uncapped method := by
  intro s free
  exact ⟨succeeds s free, fun t ended => absurd ended (calm _ _)⟩

theorem uncapped_ok (value : α) : Uncapped (fun s => .ok value s) := by
  apply uncapped_of_no_eol no_eol_ok
  intro s free value t ran
  cases ran
  exact ⟨s, rfl, free, rfl⟩

theorem uncapped_then {first : StreamM α} {next : α → StreamM β} (head : Uncapped first)
    (tail : ∀ value, Uncapped (next value)) : Uncapped (andThen first next) := by
  intro s free
  obtain ⟨headOk, headEol⟩ := head s free
  constructor
  · intro result t ran
    obtain ⟨value, middle, ran', rest⟩ := and_then_inv ran
    obtain ⟨s', first', free', rfl⟩ := headOk value middle ran'
    rw [and_then_ok first']
    exact (tail value s' free').1 result t rest
  · intro t ran
    cases ran' : first (capped s) with
    | error err middle =>
        rw [and_then_error ran'] at ran
        obtain ⟨rfl, rfl⟩ := EStateM.Result.error.inj ran
        obtain ⟨s', first', caps⟩ := headEol middle ran'
        exact ⟨s', and_then_error first', caps⟩
    | ok value middle =>
        obtain ⟨s', first', free', rfl⟩ := headOk value middle ran'
        rw [and_then_ok ran'] at ran
        rw [and_then_ok first']
        exact (tail value s' free').2 t ran

theorem will_read_capped {n : Nat} {t : Stream} (free : s.limited = false)
    (ran : willRead n (capped s) = .ok () t) :
    ∃ s', willRead n s = .ok () s' ∧ s'.limited = false ∧ s'.r = s.r ∧ n ≤ s.r.length ∧
      t = { s' with limited := true, remaining := s.r.length - n } := by
  unfold willRead at ran ⊢
  dsimp only [capped] at ran ⊢
  split_ifs at ran with full limited short
  · cases ran
    rw [if_neg full, if_neg (by simp [free])]
    exact ⟨_, rfl, free, rfl, Nat.not_lt.mp short, rfl⟩
  · exact absurd rfl limited

theorem uncapped_read_full (n : Nat) : Uncapped (readFull n) := by
  apply uncapped_of_no_eol (no_eol_read_full n)
  intro s free value t ran
  obtain ⟨_, charged, _, rfl, rfl⟩ := read_full_ok.mp ran
  obtain ⟨s', charged', free', input, enough, rfl⟩ := will_read_capped free charged
  rw [← input] at enough
  refine ⟨_, read_full_ok.mpr ⟨s', charged', enough, rfl, rfl⟩, free', ?_⟩
  simp [capped, input]

theorem uncapped_read_byte : Uncapped readByte := by
  apply uncapped_of_no_eol no_eol_read_byte
  intro s free value t ran
  obtain ⟨_, rest, charged, next, rfl⟩ := read_byte_ok.mp ran
  obtain ⟨s', charged', free', input, _, rfl⟩ := will_read_capped free charged
  have bytes : s'.r = value :: rest := next
  refine ⟨_, read_byte_ok.mpr ⟨s', rest, charged', bytes, rfl⟩, free', ?_⟩
  simp [capped, ← input, bytes]

theorem uncapped_read_uint (size : Nat) : Uncapped (readUint size) := by
  apply uncapped_of_no_eol (no_eol_read_uint size)
  intro s free value t ran
  by_cases none : size = 0
  · subst none
    cases ran
    exact ⟨_, rfl, free, rfl⟩
  by_cases single : size = 1
  · subst single
    unfold readUint at ran ⊢
    cases byte : readByte (capped s) with
    | error err middle =>
        rw [byte] at ran
        cases ran
    | ok b middle =>
        obtain ⟨s', byte', caps⟩ := (uncapped_read_byte s free).1 b middle byte
        rw [byte] at ran
        rw [byte']
        cases ran
        exact ⟨s', rfl, caps⟩
  · rw [readUint] at ran ⊢
    any_goals assumption
    cases full : readFull size (capped s) with
    | error err middle =>
        rw [full] at ran
        cases ran
    | ok bytes middle =>
        obtain ⟨s', full', caps⟩ := (uncapped_read_full size s free).1 bytes middle full
        rw [full] at ran
        rw [full']
        dsimp only at ran ⊢
        split_ifs at ran ⊢ with zero
        cases ran
        exact ⟨s', rfl, caps⟩

theorem read_size_capped {kind found : Kind} {width size : Nat} {t : Stream}
    (free : s.limited = false) (ran : readSize kind width (capped s) = ((found, size, none), t)) :
    ∃ s', readSize kind width s = ((found, size, none), s') ∧ Caps s' t := by
  unfold readSize at ran ⊢
  cases read : readUint width (capped s) with
  | error err middle =>
      rw [read] at ran
      cases ran
  | ok value middle =>
      obtain ⟨s', read', caps⟩ := (uncapped_read_uint width s free).1 value middle read
      rw [read] at ran
      rw [read']
      dsimp only at ran ⊢
      obtain ⟨header, rfl⟩ := Prod.mk.inj ran
      rw [header]
      exact ⟨s', rfl, caps⟩

theorem read_kind_capped {kind : Kind} {size : Nat} {t : Stream} (free : s.limited = false)
    (ran : readKind (capped s) = ((kind, size, none), t)) :
    ∃ s', readKind s = ((kind, size, none), s') ∧ Caps s' t := by
  unfold readKind at ran ⊢
  cases byte : readByte (capped s) with
  | error err middle =>
      rw [byte] at ran
      cases ran
  | ok b middle =>
      obtain ⟨s', byte', free', rfl⟩ := (uncapped_read_byte s free).1 b middle byte
      rw [byte] at ran
      rw [byte']
      dsimp only at ran ⊢
      have later : ({ capped s' with byteval := 0 } : Stream) = capped { s' with byteval := 0 } := rfl
      rw [later] at ran
      split_ifs at ran ⊢
      · cases ran
        exact ⟨_, rfl, free', rfl⟩
      · cases ran
        exact ⟨_, rfl, free', rfl⟩
      · exact read_size_capped free' ran
      · cases ran
        exact ⟨_, rfl, free', rfl⟩
      · exact read_size_capped free' ran

theorem uncapped_cached_kind : Uncapped cachedKind := by
  intro s free
  have remembered : (capped s).kinderr = s.kinderr := rfl
  unfold cachedKind
  rw [remembered]
  cases s.kinderr with
  | none =>
      constructor
      · intro value t ran
        cases ran
        exact ⟨s, rfl, free, rfl⟩
      · intro t ran
        cases ran
  | some err =>
      constructor
      · intro value t ran
        cases ran
      · intro t ran
        obtain ⟨rfl, rfl⟩ := EStateM.Result.error.inj ran
        exact ⟨s, rfl, free, rfl⟩

theorem size_error_capped {size : Nat} (free : s.limited = false)
    (calm : sizeError (capped s) size = none) : sizeError s size = none := by
  have stack : (capped s).stack = s.stack := rfl
  unfold sizeError at calm ⊢
  rw [stack] at calm
  by_cases top : s.stack.isEmpty = true
  · rw [if_pos top, if_neg (by simp [free])]
  · rw [if_neg top] at calm ⊢
    exact calm

/-- A header that is not remembered is read, unless the list has ended. -/
theorem next_kind_fresh (fresh : ¬s.kind.isSome = true) :
    Stream.nextKind s =
      if atListEnd s.stack then .error .eol { s with kinderr := none }
      else
        let header := readKind { s with kinderr := none }
        cachedKind
          { header.2 with
            kind := some header.1.1
            size := header.1.2.1
            kinderr := header.1.2.2.or (sizeError header.2 header.1.2.1) } := if_neg fresh

theorem uncapped_next_kind : Uncapped Stream.nextKind := by
  intro s free
  by_cases cached : s.kind.isSome = true
  · have known : Stream.nextKind s = cachedKind s := if_pos cached
    have known' : Stream.nextKind (capped s) = cachedKind (capped s) := if_pos cached
    rw [known, known']
    exact uncapped_cached_kind s free
  have forgets : ({ capped s with kinderr := none } : Stream) = capped { s with kinderr := none } :=
    rfl
  have stack : (capped s).stack = s.stack := rfl
  rw [next_kind_fresh cached, next_kind_fresh (s := capped s) cached, forgets, stack]
  by_cases ended : atListEnd s.stack = true
  · rw [if_pos ended, if_pos ended]
    constructor
    · intro value t ran
      cases ran
    · intro t ran
      obtain ⟨_, rfl⟩ := EStateM.Result.error.inj ran
      exact ⟨_, rfl, free, rfl⟩
  rw [if_neg ended, if_neg ended]
  have calm := read_kind_not_eol (capped { s with kinderr := none })
  rcases read : readKind (capped { s with kinderr := none }) with ⟨⟨kind, size, err⟩, t⟩
  rw [read] at calm
  dsimp only at calm ⊢
  constructor
  · intro value final ran
    obtain ⟨fine, rfl, rfl⟩ := RlpAcceptance.cached_kind_inv ran
    obtain ⟨rfl, small⟩ := Option.or_eq_none_iff.mp fine
    obtain ⟨s', read', free', rfl⟩ := read_kind_capped (s := { s with kinderr := none }) free read
    rw [read']
    dsimp only
    rw [size_error_capped free' small]
    exact ⟨_, rfl, free', by rw [small]; rfl⟩
  · intro final ran
    have sticky := RlpAcceptance.cached_kind_error ran
    rcases Option.or_eq_some_iff.mp sticky with eol | ⟨_, eol⟩
    · exact absurd eol calm
    · exact absurd eol (size_error_not_eol _ _)

theorem uncapped_raw : Uncapped Stream.raw := by
  apply uncapped_then uncapped_next_kind
  rintro ⟨kind, size⟩
  cases kind with
  | byte =>
      apply uncapped_of_no_eol
      · intro s s' ran
        cases ran
      · intro s free value t ran
        cases ran
        exact ⟨_, rfl, free, rfl⟩
  | string => exact uncapped_then (uncapped_read_full size) fun b => uncapped_ok _
  | list => exact uncapped_then (uncapped_read_full size) fun b => uncapped_ok _

/-- The loop over the elements, which ends with the list. -/
theorem uncapped_slice_elems {elem : StreamM α} (each : Uncapped elem) (fuel i : Nat) :
    Uncapped (decodeSliceElems elem fuel i) := by
  apply uncapped_of_no_eol (no_eol_slice_elems elem fuel i)
  induction fuel generalizing i with
  | zero =>
      intro s free value t ran
      cases ran
  | succ fuel induction =>
      intro s free value t ran
      obtain ⟨headOk, headEol⟩ := each s free
      cases first : elem (capped s) with
      | error err middle =>
          by_cases eol : err = .eol
          · subst eol
            obtain ⟨s', first', caps⟩ := headEol middle first
            rw [slice_elems_end first] at ran
            cases ran
            exact ⟨s', slice_elems_end first', caps⟩
          · rw [slice_elems_error eol first] at ran
            cases ran
      | ok v middle =>
          obtain ⟨s', first', free', rfl⟩ := headOk v middle first
          rw [slice_elems_next first] at ran
          rw [slice_elems_next first']
          obtain ⟨values, later, rest, done⟩ := and_then_inv ran
          cases done
          obtain ⟨s'', rest', caps⟩ := induction (i + 1) s' free' values t rest
          exact ⟨s'', and_then_ok rest', caps⟩

theorem uncapped_tail {elem : StreamM α} (each : Uncapped elem) : Uncapped (decodeTail elem) := by
  intro s free
  exact uncapped_slice_elems each (s.r.length + 1) 0 s free

end Unlimited

section Items

/-- The encodings of strings and of lists of items. -/
inductive Item : List UInt8 → Prop where
  | string (b : List UInt8) (small : b.length < 2 ^ 64) : Item (string b)
  | list (elements : List (List UInt8)) (each : ∀ element ∈ elements, Item element)
      (small : elements.flatten.length < 2 ^ 64) : Item (list elements)

theorem item_ne_nil {x : List UInt8} (item : Item x) : x ≠ [] := by
  apply List.length_pos_iff.mp
  cases item with
  | string b small => exact string_length_pos b
  | list elements each small =>
      rw [list_length]
      exact Nat.add_pos_left (header_length_pos _ _) _

def LongString (x : List UInt8) : Prop := 0xB8 ≤ x.headD 0 ∧ x.headD 0 < 0xC0

instance (x : List UInt8) : Decidable (LongString x) := inferInstanceAs (Decidable (_ ∧ _))

/-- What `Raw` makes of an item: the tag of a long string is off by one. -/
def returned (x : List UInt8) : List UInt8 :=
  if LongString x then (x.headD 0 + 1) :: x.tail else x

theorem long_string_ne_nil {x : List UInt8} (long : LongString x) : x ≠ [] := by
  rintro rfl
  exact absurd long.1 (by decide)

theorem returned_length (x : List UInt8) : (returned x).length = x.length := by
  unfold returned
  split_ifs with long
  · have some := List.length_pos_iff.mpr (long_string_ne_nil long)
    rw [List.length_cons, List.length_tail]
    omega
  · rfl

theorem returned_eq_iff (x : List UInt8) : returned x = x ↔ ¬LongString x := by
  unfold returned
  split_ifs with long
  · refine iff_of_false ?_ (not_not.mpr long)
    obtain ⟨tag, rest, rfl⟩ := List.exists_cons_of_ne_nil (long_string_ne_nil long)
    intro same
    have tags := congrArg UInt8.toNat (List.cons.inj same).1
    rw [List.headD_cons, UInt8.toNat_add] at tags
    change (tag.toNat + 1) % 256 = tag.toNat at tags
    omega
  · exact iff_of_true rfl long

def remade : Kind → Nat → List UInt8
  | .string, size => puthead 0x80 0xB8 size
  | _, size => puthead 0xC0 0xF7 size

theorem takes_raw_content {kind : Kind} (several : kind ≠ .byte) {content : List UInt8}
    (small : content.length < 2 ^ 64) :
    Takes Stream.raw (header kind content.length ++ content)
      (remade kind content.length ++ content) := by
  intro s rest armed inside next fits
  rw [List.append_assoc] at next
  rw [List.length_append] at fits ⊢
  have taken : (s.peeked (header kind content.length).length kind content.length 0).r.take
      content.length = content := by
    simp [Stream.peeked, Stream.skip, next]
  rw [Stream.raw, and_then_ok (next_kind_header several small armed inside fits next)]
  refine ⟨_, ?_, consumed_peeked s _ content.length kind content.length 0⟩
  cases kind with
  | byte => exact absurd rfl several
  | string =>
      dsimp only
      rw [and_then_ok (read_full_fits (peeked_fits fits)), taken]
      rfl
  | list =>
      dsimp only
      rw [and_then_ok (read_full_fits (peeked_fits fits)), taken]
      rfl

theorem takes_raw_byte {b : UInt8} (low : b < 0x80) : Takes Stream.raw [b] [b] := by
  intro s rest armed inside next fits
  rw [Stream.raw, and_then_ok (next_kind_byte low armed inside fits next)]
  exact ⟨_, rfl, ⟨rfl, rfl, rfl, rfl, rfl⟩⟩

theorem string_framed {b : List UInt8} (small : b.length < 2 ^ 64)
    (several : ¬(b.length = 1 ∧ b.headD 0 < 0x80)) :
    string b = header .string b.length ++ b := by
  have front : header .string b.length = Library.Rlp.header 0x80 b.length := string_header small
  rw [front]
  exact RlpAcceptance.string_behind_header several

/-- Only the tag of a long string is made wrong. -/
theorem remade_string (content : List UInt8) :
    remade .string content.length ++ content =
      returned (header .string content.length ++ content) := by
  have width := putint_size_bounds content.length
  rw [remade, header, puthead, puthead, returned]
  by_cases short : content.length < 56
  · have room : (0x80 : UInt8).toNat + content.length < 256 := by
      change 128 + _ < 256
      omega
    rw [if_pos short, if_pos short, List.singleton_append, if_neg]
    · rfl
    · rintro ⟨above, _⟩
      rw [List.singleton_append, List.headD_cons, UInt8.le_iff_toNat_le] at above
      change 184 ≤ ((0x80 : UInt8) + _).toNat at above
      rw [tag_to_nat room] at above
      change 184 ≤ 128 + _ at above
      omega
  · have count := putint_length content.length
    have room : (0xB7 : UInt8).toNat + (putint content.length).length < 256 := by
      change 183 + _ < 256
      omega
    have tag : (0xB8 : UInt8) + UInt8.ofNat (putint content.length).length =
        0xB7 + UInt8.ofNat (putint content.length).length + 1 := by
      rw [UInt8.add_assoc, UInt8.add_comm _ 1, ← UInt8.add_assoc]
      rfl
    rw [if_neg short, if_neg short, List.cons_append, List.cons_append, if_pos]
    · rw [tag]
      rfl
    · change 0xB8 ≤ (0xB7 : UInt8) + _ ∧ (0xB7 : UInt8) + _ < 0xC0
      rw [UInt8.le_iff_toNat_le, UInt8.lt_iff_toNat_lt, tag_to_nat room]
      change 184 ≤ 183 + _ ∧ 183 + _ < 192
      omega

theorem list_not_long (elements : List (List UInt8)) (small : elements.flatten.length < 2 ^ 64) :
    ¬LongString (list elements) := by
  have width := putint_size_bounds elements.flatten.length
  rw [list, ← header_list small]
  rintro ⟨_, below⟩
  revert below
  rw [header, puthead]
  split_ifs with short
  · have room : (0xC0 : UInt8).toNat + elements.flatten.length < 256 := by
      change 192 + _ < 256
      omega
    rw [List.singleton_append, List.headD_cons, UInt8.lt_iff_toNat_lt]
    change ¬((0xC0 : UInt8) + _).toNat < 192
    rw [tag_to_nat room]
    change ¬192 + _ < 192
    omega
  · have count := putint_length elements.flatten.length
    have room : (0xF7 : UInt8).toNat + (putint elements.flatten.length).length < 256 := by
      change 247 + _ < 256
      omega
    rw [List.cons_append, List.headD_cons, UInt8.lt_iff_toNat_lt]
    change ¬((0xF7 : UInt8) + _).toNat < 192
    rw [tag_to_nat room]
    change ¬247 + _ < 192
    omega

theorem takes_raw {x : List UInt8} (item : Item x) : Takes Stream.raw x (returned x) := by
  cases item with
  | string b small =>
      by_cases single : b.length = 1 ∧ b.headD 0 < 0x80
      · obtain ⟨one, low⟩ := single
        obtain ⟨byte, rfl⟩ := List.length_eq_one_iff.mp one
        rw [List.headD_cons] at low
        have short : ¬LongString [byte] := by
          rintro ⟨above, _⟩
          have reached : (0xB8 : UInt8) < 0x80 := UInt8.lt_of_le_of_lt above low
          exact absurd reached (by decide)
        rw [RlpAcceptance.string_low low, (returned_eq_iff _).mpr short]
        exact takes_raw_byte low
      · rw [string_framed small single, ← remade_string]
        exact takes_raw_content (by decide) small
  | list elements each small =>
      rw [(returned_eq_iff _).mpr (list_not_long elements small), list, ← header_list small]
      exact takes_raw_content (by decide) small

end Items

section Positions

variable {α : Type} {s s' : Stream} {x bytes rest : List UInt8} {value : α}

/-- The bytes come next, within the list around them and the limit of the stream. -/
structure Ahead (s : Stream) (bytes rest : List UInt8) : Prop where
  armed : s.kind = none
  next : s.r = bytes ++ rest
  inside : overflows s.stack bytes.length = false
  allowed : s.limited = true → bytes.length ≤ s.remaining

structure Behind (s : Stream) (bytes rest : List UInt8) (s' : Stream) : Prop where
  armed : s'.kind = none
  next : s'.r = rest
  stack : s'.stack = charge s.stack bytes.length

/-- The stream with a limit: its own, or else its input. -/
def withLimit (s : Stream) : Stream := if s.limited = true then s else capped s

theorem fits_with_limit (ahead : Ahead s bytes rest) : Fits (withLimit s) bytes.length := by
  have present : bytes.length ≤ s.r.length := by
    rw [ahead.next, List.length_append]
    exact Nat.le_add_right _ _
  unfold withLimit
  split_ifs with limited
  · exact ⟨limited, present, ahead.allowed limited, ahead.inside⟩
  · exact ⟨rfl, present, present, ahead.inside⟩

theorem with_limit_parts (s : Stream) :
    (withLimit s).r = s.r ∧ (withLimit s).kind = s.kind ∧ (withLimit s).stack = s.stack := by
  unfold withLimit
  split_ifs <;> exact ⟨rfl, rfl, rfl⟩

/-- A run on the stream with a limit is one on the stream itself. -/
theorem run_behind {method : StreamM α} {t : Stream} (uncapped : Uncapped method)
    (next : s.r = bytes ++ rest) (ran : method (withLimit s) = .ok value t)
    (consumed : Consumed (withLimit s) bytes.length t) :
    ∃ s', method s = .ok value s' ∧ Behind s bytes rest s' := by
  obtain ⟨input, _, stack⟩ := with_limit_parts s
  have left : t.r = rest := by
    rw [consumed.r, input, next, List.drop_left]
  have charged := consumed.stack
  rw [stack] at charged
  by_cases limited : s.limited = true
  · rw [withLimit, if_pos limited] at ran
    exact ⟨t, ran, consumed.armed, left, charged⟩
  · rw [withLimit, if_neg limited] at ran
    obtain ⟨s', ran', caps⟩ := (uncapped s (eq_false_of_ne_true limited)).1 value t ran
    have armed := consumed.armed
    rw [caps.same] at armed left charged
    exact ⟨s', ran', armed, left, charged⟩

/-- `Raw` at any place of any stream. -/
theorem raw_ahead (item : Item x) (ahead : Ahead s x rest) (unended : atListEnd s.stack = false) :
    ∃ s', Stream.raw s = .ok (returned x) s' ∧ Behind s x rest s' := by
  obtain ⟨input, kind, stack⟩ := with_limit_parts s
  have next : (withLimit s).r = x ++ rest := input.trans ahead.next
  have armed : (withLimit s).kind = none := kind.trans ahead.armed
  rw [← stack] at unended
  obtain ⟨t, ran, consumed⟩ :=
    takes_raw item (withLimit s) rest armed unended next (fits_with_limit ahead)
  exact run_behind uncapped_raw ahead.next ran consumed

theorem next_kind_again {header : Kind × Nat} (asked : Stream.nextKind s = .ok header s') :
    Stream.nextKind s' = .ok header s' := by
  have known : ∀ t, t.kind.isSome = true → cachedKind t = .ok header s' →
      Stream.nextKind s' = .ok header s' := by
    intro t cached ran
    obtain ⟨_, rfl, _⟩ := RlpAcceptance.cached_kind_inv ran
    rw [Stream.nextKind, if_pos cached]
    exact ran
  by_cases cached : s.kind.isSome = true
  · rw [Stream.nextKind, if_pos cached] at asked
    exact known s cached asked
  · rw [next_kind_fresh cached] at asked
    split_ifs at asked
    exact known _ rfl asked

theorem raw_asked {header : Kind × Nat} (asked : Stream.nextKind s = .ok header s') :
    Stream.raw s' = Stream.raw s := by
  unfold Stream.raw
  rw [and_then_ok asked, and_then_ok (next_kind_again asked)]

/-- The items are all that is left of the list. -/
structure Remaining (s : Stream) (xs : List (List UInt8)) (rest : List UInt8) : Prop where
  ahead : Ahead s xs.flatten rest
  last : ∃ tos outer, s.stack = tos :: outer ∧ tos.pos + xs.flatten.length = tos.size

theorem raw_at_end (s : Stream) (armed : s.kind = none) (done : atListEnd s.stack = true) :
    Stream.raw s = .error .eol { s with kinderr := none } :=
  and_then_error (next_kind_at_end armed done)

/-- A tail field of raw values at the rest of any list. -/
theorem tail_remaining {xs : List (List UInt8)} (items : ∀ x ∈ xs, Item x)
    (remaining : Remaining s xs rest) :
    ∃ s', decodeTail Stream.raw s = .ok (xs.map returned) s' ∧ Behind s xs.flatten rest s' := by
  obtain ⟨input, kind, stack⟩ := with_limit_parts s
  obtain ⟨tos, outer, nested, whole⟩ := remaining.last
  have ahead := remaining.ahead
  have next : (withLimit s).r = xs.flatten ++ rest := input.trans ahead.next
  have some : ∀ x ∈ xs, x ≠ [] := fun x member => item_ne_nil (items x member)
  have enough : xs.length < (withLimit s).r.length + 1 := by
    have counted := count_le_length fun x member => List.length_pos_iff.mpr (some x member)
    rw [next, List.length_append]
    omega
  have reads := reads_slice_items returned (fun x member => takes_raw (items x member)) some
    raw_at_end enough 0
  rw [List.map_id'] at reads
  obtain ⟨t, ran, consumed⟩ := reads (withLimit s) tos outer rest (kind.trans ahead.armed)
    (stack.trans nested) whole next (fits_with_limit ahead)
  exact run_behind (uncapped_tail uncapped_raw) ahead.next ran consumed

end Positions

section Verbatim

theorem write_raw_values (raws : List (List UInt8)) (w : EncBuf) :
    writeElems writeRawValue raws w = .ok (w.append raws.flatten) := by
  induction raws generalizing w with
  | nil => simp [writeElems, EncBuf.append]
  | cons raw raws induction =>
      change writeElems writeRawValue raws (w.append raw) = _
      rw [induction]
      simp [EncBuf.append]

theorem flatten_returned_iff (xs : List (List UInt8)) :
    (xs.map returned).flatten = xs.flatten ↔ ∀ x ∈ xs, ¬LongString x := by
  induction xs with
  | nil => simp
  | cons x xs induction =>
      rw [List.map_cons, List.flatten_cons, List.flatten_cons, List.forall_mem_cons,
        ← returned_eq_iff, ← induction]
      constructor
      · intro same
        exact List.append_inj same (returned_length x)
      · rintro ⟨first, later⟩
        rw [first, later]

/-- `Raw` returns the bytes of the item wherever it stands, whether or not `Kind` was
asked before. -/
def RawVerbatim (x : List UInt8) : Prop :=
  ∀ s rest, Ahead s x rest → atListEnd s.stack = false →
    ∃ s', Stream.raw s = .ok x s' ∧ Behind s x rest s' ∧
      ∀ header asked, Stream.nextKind s = .ok header asked → Stream.raw asked = .ok x s'

/-- The items come back when they are decoded as raw values and encoded again. -/
def TailVerbatim (xs : List (List UInt8)) : Prop :=
  ∀ s rest w, Remaining s xs rest →
    ∃ raws s', decodeTail Stream.raw s = .ok raws s' ∧ Behind s xs.flatten rest s' ∧
      writeElems writeRawValue raws w = .ok (w.append xs.flatten)

def inList (xs : List (List UInt8)) : Stream :=
  { newStream xs.flatten 0 with stack := [{ pos := 0, size := xs.flatten.length }] }

theorem in_list_remaining (xs : List (List UInt8)) : Remaining (inList xs) xs [] where
  ahead := {
    armed := rfl
    next := (List.append_nil _).symm
    inside := decide_eq_false (Nat.lt_irrefl _)
    allowed := fun _ => Nat.le_refl _ }
  last := ⟨_, _, rfl, Nat.zero_add _⟩

theorem raw_verbatim_iff {x : List UInt8} (item : Item x) : RawVerbatim x ↔ ¬LongString x := by
  rw [← returned_eq_iff]
  constructor
  · intro verbatim
    have ahead : Ahead (newStream x 0) x [] :=
      ⟨rfl, (List.append_nil x).symm, rfl, fun _ => Nat.le_refl _⟩
    obtain ⟨s', ran, _⟩ := verbatim _ _ ahead rfl
    obtain ⟨s'', made, _⟩ := raw_ahead item ahead rfl
    rw [made] at ran
    exact (EStateM.Result.ok.inj ran).1
  · intro same s rest ahead unended
    obtain ⟨s', ran, behind⟩ := raw_ahead item ahead unended
    rw [same] at ran
    refine ⟨s', ran, behind, ?_⟩
    intro header asked known
    rw [raw_asked known]
    exact ran

theorem tail_verbatim_iff {xs : List (List UInt8)} (items : ∀ x ∈ xs, Item x) :
    TailVerbatim xs ↔ ∀ x ∈ xs, ¬LongString x := by
  rw [← flatten_returned_iff]
  constructor
  · intro verbatim
    obtain ⟨raws, s', ran, _, written⟩ := verbatim _ _ {} (in_list_remaining xs)
    obtain ⟨s'', made, _⟩ := tail_remaining items (in_list_remaining xs)
    rw [made] at ran
    obtain ⟨rfl, -⟩ := EStateM.Result.ok.inj ran
    rw [write_raw_values] at written
    have strings := congrArg EncBuf.str (Except.ok.inj written)
    simpa [EncBuf.append] using strings
  · intro same s rest w remaining
    obtain ⟨s', ran, behind⟩ := tail_remaining items remaining
    refine ⟨xs.map returned, s', ran, behind, ?_⟩
    rw [write_raw_values, same]

/-- Raw values are verbatim for all items but long strings. -/
theorem raw_values_verbatim_iff {x : List UInt8} {xs : List (List UInt8)} (item : Item x)
    (items : ∀ x ∈ xs, Item x) :
    (RawVerbatim x ↔ ¬LongString x) ∧ (TailVerbatim xs ↔ ∀ x ∈ xs, ¬LongString x) :=
  ⟨raw_verbatim_iff item, tail_verbatim_iff items⟩

/-- The empty list and a short string, apart and as the rest of a list. -/
theorem short_values_verbatim :
    RawVerbatim [0xC0] ∧ TailVerbatim [[0xC0], [0x82, 4, 0]] := by
  have empty : Item [0xC0] := Item.list [] (by simp) (by decide)
  have short : Item [0x82, 4, 0] := Item.string [4, 0] (by decide)
  have both : ∀ x ∈ [[0xC0], [0x82, 4, 0]], Item x :=
    List.forall_mem_cons.mpr ⟨empty, List.forall_mem_singleton.mpr short⟩
  have verbatim := raw_values_verbatim_iff empty both
  exact ⟨verbatim.1.mpr (by decide), verbatim.2.mpr (by decide)⟩

/-- A string of 56 bytes comes back as the start of a longer one, whose length has two
bytes. -/
theorem long_string_retagged :
    Item (0xB8 :: 56 :: List.replicate 56 0) ∧
      (∃ s', Stream.raw (newStream (0xB8 :: 56 :: List.replicate 56 0) 0) =
        .ok (0xB9 :: 56 :: List.replicate 56 0) s' ∧ s'.r = []) ∧
      ¬RawVerbatim (0xB8 :: 56 :: List.replicate 56 0) ∧
      ¬TailVerbatim [0xB8 :: 56 :: List.replicate 56 0] := by
  have item : Item (0xB8 :: 56 :: List.replicate 56 0) := by
    have framed : 0xB8 :: 56 :: List.replicate 56 0 = string (List.replicate 56 0) := by
      decide +kernel
    rw [framed]
    exact Item.string _ (by decide)
  have ahead : Ahead (newStream (0xB8 :: 56 :: List.replicate 56 0) 0)
      (0xB8 :: 56 :: List.replicate 56 0) [] :=
    ⟨rfl, (List.append_nil _).symm, rfl, fun _ => Nat.le_refl _⟩
  have long : LongString (0xB8 :: 56 :: List.replicate 56 0) := by decide
  refine ⟨item, ?_, ?_, ?_⟩
  · obtain ⟨s', ran, behind⟩ := raw_ahead item ahead rfl
    exact ⟨s', ran, behind.next⟩
  · rw [raw_verbatim_iff item]
    exact not_not.mpr long
  · rw [tail_verbatim_iff (List.forall_mem_singleton.mpr item), List.forall_mem_singleton]
    exact not_not.mpr long

end Verbatim

end PbftBlock.RlpRawValues
