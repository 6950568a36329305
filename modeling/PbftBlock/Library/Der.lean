import PbftBlock.Library.BigEndian

/-!
# Elements of the distinguished encoding

Tag, definite length and content, with integers in as few bytes as possible. The
reader refuses every length and every integer that has a shorter form.
-/

namespace PbftBlock.Library.Der

open PbftBlock.Library.BigEndian

set_option autoImplicit false

def lengthBytes (n : Nat) : List UInt8 :=
  if n < 128 then [UInt8.ofNat n]
  else (0x80 + UInt8.ofNat (minimal n).length) :: minimal n

def element (tag : UInt8) (content : List UInt8) : List UInt8 :=
  tag :: (lengthBytes content.length ++ content)

/-- The content of a nonnegative integer, whose first bit is its sign. -/
def unsigned (n : Nat) : List UInt8 :=
  if n = 0 then [0]
  else if 0x80 ≤ (minimal n).headD 0 then 0 :: minimal n
  else minimal n

def readLength : Nat → Nat → List UInt8 → Option (Nat × List UInt8)
  | 0, len, bytes => if len < 128 then none else some (len, bytes)
  | _ + 1, _, [] => none
  | count + 1, len, byte :: bytes =>
      if 2 ^ 23 ≤ len then none
      -- a leading zero
      else if len * 256 + byte.toNat = 0 then none
      else readLength count (len * 256 + byte.toNat) bytes

def parseLength : List UInt8 → Option (Nat × List UInt8)
  | [] => none
  | byte :: bytes =>
      if byte < 0x80 then some (byte.toNat, bytes)
      -- the indefinite form
      else if byte = 0x80 then none
      else readLength (byte.toNat - 128) 0 bytes

def parseElement (tag : UInt8) : List UInt8 → Option (List UInt8 × List UInt8)
  | [] => none
  | first :: bytes =>
      if first ≠ tag then none
      else
        match parseLength bytes with
        | none => none
        | some (len, bytes) =>
            if bytes.length < len then none else some (bytes.take len, bytes.drop len)

/-- Whether the first byte only repeats the sign of the second. -/
def redundant : List UInt8 → Bool
  | first :: second :: _ => (first == 0 && second < 0x80) || (first == 0xFF && 0x80 ≤ second)
  | _ => false

def parseInteger (content : List UInt8) : Option Int :=
  if content.isEmpty ∨ redundant content then none
  else if content.headD 0 < 0x80 then some (ofBytes content)
  else some (ofBytes content - 256 ^ content.length)

section Reading

theorem read_length_bytes (bytes : List UInt8) {len : Nat} (rest : List UInt8)
    (positive : 0 < len) (small : len * 256 ^ bytes.length + ofBytes bytes < 2 ^ 31)
    (long : 128 ≤ len * 256 ^ bytes.length + ofBytes bytes) :
    readLength bytes.length len (bytes ++ rest) =
      some (len * 256 ^ bytes.length + ofBytes bytes, rest) := by
  induction bytes generalizing len with
  | nil =>
      have value : len * 256 ^ ([] : List UInt8).length + ofBytes [] = len := by simp [ofBytes]
      rw [value] at long ⊢
      rw [List.length_nil, readLength, if_neg (Nat.not_lt.mpr long), List.nil_append]
  | cons byte bytes induction =>
      have step : len * 256 ^ (byte :: bytes).length + ofBytes (byte :: bytes) =
          (len * 256 + byte.toNat) * 256 ^ bytes.length + ofBytes bytes := by
        rw [of_bytes_cons, List.length_cons]
        ring
      rw [step] at small long ⊢
      have power : 1 ≤ 256 ^ bytes.length := Nat.one_le_pow _ _ (by decide)
      have bounded : len * 256 + byte.toNat ≤ (len * 256 + byte.toNat) * 256 ^ bytes.length :=
        Nat.le_mul_of_pos_right _ power
      rw [List.length_cons, List.cons_append, readLength, if_neg (by omega), if_neg (by omega)]
      exact induction (by omega) small long

theorem parse_length_written {n : Nat} (small : n < 2 ^ 31) (rest : List UInt8) :
    parseLength (lengthBytes n ++ rest) = some (n, rest) := by
  unfold lengthBytes
  split_ifs with short
  · obtain ⟨value, low⟩ := byte_of_small short
    rw [List.singleton_append, parseLength, if_pos low, value]
  · obtain ⟨first, more, bytes, nonzero⟩ := minimal_leading (show n ≠ 0 by omega)
    have width : (minimal n).length ≤ 4 := (minimal_length_le_iff 4 n).mpr (by omega)
    have some : 1 ≤ (minimal n).length := by
      rw [bytes, List.length_cons]
      omega
    have tag : (0x80 + UInt8.ofNat (minimal n).length).toNat = 128 + (minimal n).length := by
      have high : (0x80 : UInt8).toNat = 128 := rfl
      rw [UInt8.toNat_add, UInt8.toNat_ofNat', high]
      omega
    have long : ¬0x80 + UInt8.ofNat (minimal n).length < 0x80 := by
      rw [UInt8.lt_iff_toNat_lt, tag]
      exact Nat.not_lt.mpr (Nat.le_add_right _ _)
    have definite : ¬0x80 + UInt8.ofNat (minimal n).length = 0x80 := by
      intro same
      have numbers := congrArg UInt8.toNat same
      rw [tag] at numbers
      change 128 + _ = 128 at numbers
      omega
    have value : first.toNat * 256 ^ more.length + ofBytes more = n := by
      rw [← of_bytes_cons, ← bytes, of_bytes_minimal]
    have positive : 0 < first.toNat := by
      apply Nat.pos_of_ne_zero
      intro zero
      exact nonzero (UInt8.toNat_inj.mp zero)
    have read := read_length_bytes more rest positive (by rw [value]; exact small)
      (by rw [value]; omega)
    rw [value] at read
    rw [List.cons_append, parseLength, if_neg long, if_neg definite, tag, Nat.add_sub_cancel_left,
      bytes, List.length_cons, List.cons_append, readLength, if_neg (by decide), Nat.zero_mul,
      Nat.zero_add, if_neg (by omega)]
    exact read

theorem parse_element_written (tag : UInt8) {content : List UInt8}
    (small : content.length < 2 ^ 31) (rest : List UInt8) :
    parseElement tag (element tag content ++ rest) = some (content, rest) := by
  have enough : ¬(content ++ rest).length < content.length := by
    rw [List.length_append]
    omega
  rw [element, List.cons_append, List.append_assoc, parseElement, if_neg (by simp),
    parse_length_written small]
  dsimp only
  rw [if_neg enough, List.take_left, List.drop_left]

theorem parse_integer_unsigned (n : Nat) : parseInteger (unsigned n) = some (n : Int) := by
  unfold unsigned
  split_ifs with zero high
  · subst zero
    rfl
  · obtain ⟨first, more, bytes, _⟩ := minimal_leading zero
    rw [bytes, List.headD_cons] at high
    have needed : redundant (0 :: first :: more) = false := by
      have same : (first < 0x80) = False := by simpa using UInt8.not_lt.mpr high
      simp [redundant, same]
    have value : ofBytes (0 :: first :: more) = n := by
      rw [of_bytes_cons, ← bytes, of_bytes_minimal]
      simp
    rw [bytes, parseInteger, needed, if_neg (by simp), value]
    rfl
  · obtain ⟨first, more, bytes, nonzero⟩ := minimal_leading zero
    have value := of_bytes_minimal n
    rw [bytes] at high value
    rw [List.headD_cons] at high
    have low : first < 0x80 := UInt8.not_le.mp high
    have needed : redundant (first :: more) = false := by
      cases more with
      | nil => rfl
      | cons second more =>
          have below : first ≠ 0xFF := by
            rintro rfl
            exact absurd low (by decide)
          simp [redundant, nonzero, below]
    rw [bytes, parseInteger, needed, if_neg (by simp), List.headD_cons, if_pos low, value]

end Reading

theorem unsigned_length {width n : Nat} (fits : n < 256 ^ width) :
    (unsigned n).length ≤ width + 1 := by
  have short := (pad_minimal fits).1
  unfold unsigned
  split_ifs
  · simp
  · rw [List.length_cons]
    omega
  · omega

theorem element_length (tag : UInt8) {content : List UInt8} (small : content.length < 256) :
    (element tag content).length ≤ content.length + 3 := by
  rw [element, List.length_cons, List.length_append]
  unfold lengthBytes
  split_ifs with short
  · rw [List.length_singleton]
    omega
  · rw [minimal_byte (by omega) small, List.length_cons, List.length_singleton]
    omega

theorem long_element_length (tag : UInt8) {content : List UInt8} (small : content.length < 2 ^ 31) :
    (element tag content).length ≤ content.length + 6 := by
  have width := (minimal_length_le_iff 4 content.length).mpr (by omega)
  rw [element, List.length_cons, List.length_append]
  unfold lengthBytes
  split_ifs
  · rw [List.length_singleton]
    omega
  · rw [List.length_cons]
    omega

theorem short_element_length (tag : UInt8) {content : List UInt8} (short : content.length < 128) :
    (element tag content).length = content.length + 2 := by
  rw [element, lengthBytes, if_pos short, List.length_cons, List.length_append,
    List.length_singleton]
  omega

end PbftBlock.Library.Der
