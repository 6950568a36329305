import PbftBlock.Library.Rlp

/-!
# The types that RLP serializes

The encoder and the decoder are chosen by the Go type of a value. This is the part
of the types they treat by structure: unsigned integers, booleans, strings, byte
arrays, pointers to big integers, slices and structs. A struct may end in a slice
with the tag `tail`, whose elements count as elements of the struct.
-/

namespace PbftBlock.RlpTypes

open PbftBlock.Library.BigEndian PbftBlock.Library.Rlp

set_option autoImplicit false

inductive Width where
  | w8
  | w16
  | w32
  | w64
deriving DecidableEq

def Width.bits : Width → Nat
  | .w8 => 8
  | .w16 => 16
  | .w32 => 32
  | .w64 => 64

@[reducible] def Width.Value : Width → Type
  | .w8 => UInt8
  | .w16 => UInt16
  | .w32 => UInt32
  | .w64 => UInt64

def Width.toNat : (width : Width) → width.Value → Nat
  | .w8, value => UInt8.toNat value
  | .w16, value => UInt16.toNat value
  | .w32, value => UInt32.toNat value
  | .w64, value => UInt64.toNat value

/-- What `SetUint` leaves in a variable of the width. -/
def Width.setUint : (width : Width) → Nat → width.Value
  | .w8, number => UInt8.ofNat number
  | .w16, number => UInt16.ofNat number
  | .w32, number => UInt32.ofNat number
  | .w64, number => UInt64.ofNat number

theorem width_to_nat_lt (width : Width) (value : width.Value) :
    width.toNat value < 2 ^ width.bits := by
  cases width with
  | w8 => exact UInt8.toNat_lt value
  | w16 => exact UInt16.toNat_lt value
  | w32 => exact UInt32.toNat_lt value
  | w64 => exact UInt64.toNat_lt value

theorem set_uint_to_nat (width : Width) (value : width.Value) :
    width.setUint (width.toNat value) = value := by
  cases width with
  | w8 => exact UInt8.ofNat_toNat
  | w16 => exact UInt16.ofNat_toNat
  | w32 => exact UInt32.ofNat_toNat
  | w64 => exact UInt64.ofNat_toNat

theorem to_nat_set_uint (width : Width) {number : Nat} (fits : number < 2 ^ width.bits) :
    width.toNat (width.setUint number) = number := by
  cases width with
  | w8 => exact UInt8.toNat_ofNat_of_lt' fits
  | w16 => exact UInt16.toNat_ofNat_of_lt' fits
  | w32 => exact UInt32.toNat_ofNat_of_lt' fits
  | w64 => exact UInt64.toNat_ofNat_of_lt' fits

theorem width_bits_le (width : Width) : width.bits ≤ 64 := by
  cases width <;> decide

mutual
/-- The byte slices are the slices of `uint8`. -/
inductive Ty where
  | uint (width : Width)
  | bool
  | string
  | bigInt
  | byteArray (n : Nat)
  | slice (elem : Ty)
  | struct (name : String) (fields : Fields)
/-- The exported fields of a struct in their order. Only the last one may be a
slice with the tag `tail`. -/
inductive Fields where
  | done
  | tail (name : String) (elem : Ty)
  | field (name : String) (ty : Ty) (rest : Fields)
end

/-- Types and field lists are built together. -/
theorem type_induction {value : Ty → Prop} {sequence : Fields → Prop}
    (uint : ∀ width, value (.uint width))
    (bool : value .bool)
    (string : value .string)
    (bigInt : value .bigInt)
    (byteArray : ∀ n, value (.byteArray n))
    (slice : ∀ elem, value elem → value (.slice elem))
    (struct : ∀ name fields, sequence fields → value (.struct name fields))
    (done : sequence .done)
    (tail : ∀ name elem, value elem → sequence (.tail name elem))
    (field : ∀ name ty rest, value ty → sequence rest → sequence (.field name ty rest)) :
    (∀ ty, value ty) ∧ (∀ fields, sequence fields) :=
  ⟨@Ty.rec value sequence uint bool string bigInt byteArray slice struct done tail field,
    @Fields.rec value sequence uint bool string bigInt byteArray slice struct done tail field⟩

theorem fields_induction {sequence : Fields → Prop} (done : sequence .done)
    (tail : ∀ name elem, sequence (.tail name elem))
    (field : ∀ name ty rest, sequence rest → sequence (.field name ty rest)) (fields : Fields) :
    sequence fields :=
  (@type_induction (fun _ => True) sequence (fun _ => trivial) trivial trivial trivial
    (fun _ => trivial) (fun _ _ => trivial) (fun _ _ _ => trivial) done
    (fun name elem _ => tail name elem) (fun name ty rest _ => field name ty rest)).2 fields

def Ty.text : Ty → String
  | .uint width => "uint" ++ toString width.bits
  | .bool => "bool"
  | .string => "string"
  | .bigInt => "*big.Int"
  | .byteArray n => "[" ++ toString n ++ "]uint8"
  | .slice elem => "[]" ++ elem.text
  | .struct name _ => name

mutual
/-- The values of a type. A nil slice is the empty one, a big integer is present,
and a string is any sequence of bytes. -/
@[reducible] def Ty.Value : Ty → Type
  | .uint width => width.Value
  | .bool => Bool
  | .string => List UInt8
  | .bigInt => Int
  | .byteArray n => { b : List UInt8 // b.length = n }
  | .slice elem => List elem.Value
  | .struct _ fields => fields.Value
@[reducible] def Fields.Value : Fields → Type
  | .done => Unit
  | .tail _ elem => List elem.Value
  | .field _ ty rest => ty.Value × rest.Value
end

mutual
/-- The recursive definition of RLP at the values of a type. -/
def Ty.rlp : (ty : Ty) → ty.Value → List UInt8
  | .uint width, v => number (width.toNat v)
  | .bool, v => number v.toNat
  | .string, v => string v
  | .bigInt, v => number (Int.toNat v)
  | .byteArray _, v => string v.1
  | .slice (.uint .w8), v => string v
  | .slice elem, v => list (v.map elem.rlp)
  | .struct _ fields, v => list (fields.rlp v)
/-- One encoding for each field; a tail has one for each of its elements. -/
def Fields.rlp : (fields : Fields) → fields.Value → List (List UInt8)
  | .done, _ => []
  | .tail _ (.uint .w8), v => [string v]
  | .tail _ elem, v => v.map elem.rlp
  | .field _ ty rest, v => ty.rlp v.1 :: rest.rlp v.2
end

mutual
def Ty.NonNegative : (ty : Ty) → ty.Value → Prop
  | .uint _, _ => True
  | .bool, _ => True
  | .string, _ => True
  | .bigInt, v => 0 ≤ v
  | .byteArray _, _ => True
  | .slice elem, v => ∀ value ∈ v, elem.NonNegative value
  | .struct _ fields, v => fields.NonNegative v
def Fields.NonNegative : (fields : Fields) → fields.Value → Prop
  | .done, _ => True
  | .tail _ elem, v => ∀ value ∈ v, elem.NonNegative value
  | .field _ ty rest, v => ty.NonNegative v.1 ∧ rest.NonNegative v.2
end

section Slices

variable {elem : Ty} (notByte : elem ≠ .uint .w8)

include notByte

theorem rlp_slice (v : List elem.Value) : (Ty.slice elem).rlp v = list (v.map elem.rlp) := by
  rw [Ty.rlp]
  exact fun _ _ byte => notByte byte

theorem rlp_tail (name : String) (v : List elem.Value) :
    (Fields.tail name elem).rlp v = v.map elem.rlp := by
  rw [Fields.rlp]
  exact fun _ byte _ => notByte byte

end Slices

theorem number_length_pos (value : Nat) : 0 < (number value).length := string_length_pos _

theorem list_length_pos (elements : List (List UInt8)) : 0 < (list elements).length := by
  have front := header_length_pos 0xC0 elements.flatten.length
  rw [list_length]
  omega

theorem rlp_length_pos (ty : Ty) (v : ty.Value) : 0 < (ty.rlp v).length := by
  cases ty with
  | uint width => exact number_length_pos _
  | bool => exact number_length_pos _
  | string => exact string_length_pos _
  | bigInt => exact number_length_pos _
  | byteArray n => exact string_length_pos _
  | slice elem =>
      by_cases byte : elem = .uint .w8
      · subst byte
        exact string_length_pos _
      · rw [rlp_slice byte]
        exact list_length_pos _
  | struct name fields => exact list_length_pos _

end PbftBlock.RlpTypes
