import PbftBlock.Library.BigEndian

/-!
# Recursive length prefixes

The recursive definition of RLP. A string is its own bytes behind a header, or a
single byte below `0x80`; a list is the concatenation of the encodings of its
elements behind a header that carries the length of that concatenation.
-/

namespace PbftBlock.Library.Rlp

open PbftBlock.Library.BigEndian

set_option autoImplicit false

/-- The header of a payload: its length, or the length of its length and then the
length. -/
def header (tag : Nat) (size : Nat) : List UInt8 :=
  if size ≤ 55 then [UInt8.ofNat (tag + size)]
  else UInt8.ofNat (tag + 55 + (minimal size).length) :: minimal size

def string (bytes : List UInt8) : List UInt8 :=
  if bytes.length = 1 ∧ bytes.headD 0 < 0x80 then bytes
  else header 0x80 bytes.length ++ bytes

def list (elements : List (List UInt8)) : List UInt8 :=
  header 0xC0 elements.flatten.length ++ elements.flatten

def number (value : Nat) : List UInt8 := string (minimal value)

theorem header_length (tag size : Nat) :
    (header tag size).length = if size ≤ 55 then 1 else (minimal size).length + 1 := by
  unfold header
  split_ifs <;> rfl

theorem header_length_pos (tag size : Nat) : 0 < (header tag size).length := by
  rw [header_length]
  split_ifs <;> omega

theorem minimal_length_mono {small large : Nat} (less : small ≤ large) :
    (minimal small).length ≤ (minimal large).length := by
  rw [minimal_length_le_iff]
  have bound := (minimal_length_le_iff (minimal large).length large).mp (Nat.le_refl _)
  exact Nat.lt_of_le_of_lt less bound

theorem header_length_mono {small large : Nat} (tag : Nat) (less : small ≤ large) :
    (header tag small).length ≤ (header tag large).length := by
  have mono := minimal_length_mono less
  rw [header_length, header_length]
  split_ifs <;> omega

theorem header_length_le_width {size : Nat} (tag width : Nat) (small : size < 256 ^ width)
    (some : 1 ≤ width) : (header tag size).length ≤ width + 1 := by
  have bytes := (minimal_length_le_iff width size).mpr small
  rw [header_length]
  split_ifs <;> omega

theorem header_length_ge_three {size : Nat} (tag : Nat) (large : 256 ≤ size) :
    3 ≤ (header tag size).length := by
  have bytes := (minimal_length_le_iff 1 size).not.mpr (by omega)
  rw [header_length, if_neg (by omega)]
  omega

theorem string_length_pos (bytes : List UInt8) : 0 < (string bytes).length := by
  unfold string
  split_ifs with single
  · omega
  · have front := header_length_pos 0x80 bytes.length
    rw [List.length_append]
    omega

theorem string_length_ge (bytes : List UInt8) : bytes.length ≤ (string bytes).length := by
  unfold string
  split_ifs
  · exact Nat.le_refl _
  · rw [List.length_append]
    omega

theorem string_length_le (bytes : List UInt8) (short : bytes.length ≤ 55) :
    (string bytes).length ≤ bytes.length + 1 := by
  unfold string
  split_ifs
  · omega
  · rw [List.length_append, header_length, if_pos short]
    omega

theorem number_length_le {value : Nat} (width : Nat) (small : value < 256 ^ width)
    (short : width ≤ 55) : (number value).length ≤ width + 1 := by
  have bytes := (minimal_length_le_iff width value).mpr small
  have whole := string_length_le (minimal value) (by omega)
  rw [number]
  omega

theorem list_length (elements : List (List UInt8)) :
    (list elements).length =
      (header 0xC0 elements.flatten.length).length + elements.flatten.length := by
  rw [list, List.length_append]

end PbftBlock.Library.Rlp
