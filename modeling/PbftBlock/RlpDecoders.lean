import PbftBlock.RlpReaders
import PbftBlock.RlpStream

/-!
# The decoders of the RLP types

Every type has a decoder over the stream. What the encoder writes for a value is
read back as that value: inside a list each decoder takes exactly its own bytes, so
that the next one starts where the encoder started.
-/

namespace PbftBlock.RlpDecoders

open PbftBlock.Library.BigEndian PbftBlock.Library.FallibleMethods PbftBlock.RlpTypes
open PbftBlock.RlpStream PbftBlock.RlpWriters PbftBlock.RlpReaders
open PbftBlock.RlpEncoding hiding encodeToBytes encode
open PbftBlock.Library.Rlp (string number list list_length string_length_ge)

set_option autoImplicit false

def decodeBool : StreamM Bool := mapError (wrapStreamError · "bool") Stream.bool

def decodeString : StreamM (List UInt8) := mapError (wrapStreamError · "string") Stream.bytes

def decodeByteSlice : StreamM (List UInt8) := mapError (wrapStreamError · "[]uint8") Stream.bytes

/-- Leading zeros are rejected after the bytes were read. -/
def decodeBigInt : StreamM Int :=
  andThen (mapError (wrapStreamError · "*big.Int") Stream.bytes) fun b =>
    if 0 < b.length ∧ b.headD 0 = 0 then .error (wrapStreamError .canonInt "*big.Int")
    else .ok (ofBytes b)

def filled (n : Nat) (b : List UInt8) : { b : List UInt8 // b.length = n } :=
  if full : b.length = n then ⟨b, full⟩ else ⟨List.replicate n 0, List.length_replicate⟩

def decodeListSlice {α : Type} (typ : String) (fuel : Nat) (elem : StreamM α) : StreamM (List α) :=
  andThen (mapError (wrapStreamError · typ) Stream.list) fun size =>
    if size = 0 then andThen Stream.listEnd fun _ => .ok []
    else
      andThen (decodeSliceElems elem fuel 0) fun values =>
        andThen Stream.listEnd fun _ => .ok values

mutual
/-- The decoder of a type. The loops over slices are given up after `fuel` elements. -/
def makeDecoder (fuel : Nat) : (ty : Ty) → StreamM ty.Value
  | .uint width =>
      andThen (decodeUint width.bits (Ty.uint width).text) fun num => .ok (width.setUint num)
  | .bool => decodeBool
  | .string => decodeString
  | .bigInt => decodeBigInt
  | .byteArray n => andThen (decodeByteArray n (Ty.byteArray n).text) fun b => .ok (filled n b)
  | .slice (.uint .w8) => decodeByteSlice
  | .slice elem => decodeListSlice (Ty.slice elem).text fuel (makeDecoder fuel elem)
  | .struct name fields => decodeStruct name (decodeFields fuel name fields)
def decodeFields (fuel : Nat) (typ : String) : (fields : Fields) → StreamM fields.Value
  | .done => .ok ()
  | .tail name (.uint .w8) => decodeField typ name decodeByteSlice
  | .tail name elem => decodeField typ name (decodeSliceElems (makeDecoder fuel elem) fuel 0)
  | .field name ty rest =>
      andThen (decodeField typ name (makeDecoder fuel ty)) fun v =>
        andThen (decodeFields fuel typ rest) fun vs => .ok (v, vs)
end

def decodeBytes (fuel : Nat) (ty : Ty) (b : List UInt8) : Except RlpError ty.Value :=
  match RlpStream.decode ty.text (makeDecoder fuel ty) (newStream b b.length) with
  | .error err _ => .error err
  | .ok v s => if 0 < s.r.length then .error .moreThanOneValue else .ok v

mutual
def Ty.NoSingleByte : Ty → Prop
  | .uint _ => True
  | .bool => True
  | .string => True
  | .bigInt => True
  | .byteArray n => n ≠ 1
  | .slice elem => Ty.NoSingleByte elem
  | .struct _ fields => Fields.NoSingleByte fields
def Fields.NoSingleByte : Fields → Prop
  | .done => True
  | .tail _ elem => Ty.NoSingleByte elem
  | .field _ ty rest => Ty.NoSingleByte ty ∧ Fields.NoSingleByte rest
end

section Slices

variable {elem : Ty} (notByte : elem ≠ .uint .w8)

include notByte

theorem decoder_slice (fuel : Nat) :
    makeDecoder fuel (.slice elem) =
      decodeListSlice (Ty.slice elem).text fuel (makeDecoder fuel elem) := by
  rw [makeDecoder]
  exact notByte

theorem decoder_tail (fuel : Nat) (typ name : String) :
    decodeFields fuel typ (.tail name elem) =
      decodeField typ name (decodeSliceElems (makeDecoder fuel elem) fuel 0) := by
  rw [decodeFields]
  exact notByte

end Slices

section Taking

variable {α β : Type} {decoder : StreamM α} {bytes : List UInt8} {value : α}

/-- Wherever the bytes are next and belong to the list, the decoder takes them for
the value. -/
def Takes (decoder : StreamM α) (bytes : List UInt8) (value : α) : Prop :=
  ∀ s rest, s.kind = none → atListEnd s.stack = false → s.r = bytes ++ rest →
    Fits s bytes.length → ∃ s', decoder s = .ok value s' ∧ Consumed s bytes.length s'

theorem reads_of_takes (takes : Takes decoder bytes value) : Reads decoder bytes value := by
  intro s tos outer rest armed stack less next fits
  have inside : atListEnd s.stack = false := by
    rw [stack]
    exact not_at_list_end less
  exact takes s rest armed inside next fits

theorem reads_last_of_takes (some : bytes ≠ []) (takes : Takes decoder bytes value) :
    ReadsLast decoder bytes value := by
  intro s tos outer rest armed stack full next fits
  have positive : 0 < bytes.length := List.length_pos_iff.mpr some
  exact reads_of_takes takes s tos outer rest armed stack (by omega) next fits

theorem takes_map_error {change : RlpError → RlpError} (takes : Takes decoder bytes value) :
    Takes (mapError change decoder) bytes value := by
  intro s rest armed inside next fits
  obtain ⟨s', read, consumed⟩ := takes s rest armed inside next fits
  exact ⟨s', map_error_ok read, consumed⟩

theorem takes_then {finish : α → StreamM β} {result : β} (takes : Takes decoder bytes value)
    (finished : ∀ s, finish value s = .ok result s) :
    Takes (andThen decoder finish) bytes result := by
  intro s rest armed inside next fits
  obtain ⟨s', read, consumed⟩ := takes s rest armed inside next fits
  exact ⟨s', (and_then_ok read).trans (finished s'), consumed⟩

theorem reads_last_then {finish : α → StreamM β} {result : β}
    (last : ReadsLast decoder bytes value) (finished : ∀ s, finish value s = .ok result s) :
    ReadsLast (andThen decoder finish) bytes result := by
  intro s tos outer rest armed stack full arrived fits
  obtain ⟨s', read, consumed⟩ := last s tos outer rest armed stack full arrived fits
  exact ⟨s', (and_then_ok read).trans (finished s'), consumed⟩

theorem takes_uint {i bits : Nat} (small : i < 2 ^ 64) (narrow : putintSize i ≤ bits / 8) :
    Takes (Stream.uint bits) (number i) i := by
  rw [← uint_bytes_number small]
  intro s rest armed inside next fits
  exact uint_written small narrow armed inside fits next

theorem takes_string {b : List UInt8} (small : (string b).length < 2 ^ 64) :
    Takes Stream.bytes (string b) b := by
  have content := string_length_ge b
  rw [← string_bytes_string (by omega)]
  intro s rest armed inside next fits
  exact bytes_written (by omega) armed inside fits next

theorem takes_byte_array {b : List UInt8} (typ : String) (several : b.length ≠ 1)
    (small : (string b).length < 2 ^ 64) : Takes (decodeByteArray b.length typ) (string b) b := by
  have content := string_length_ge b
  rw [← string_bytes_string (by omega)]
  intro s rest armed inside next fits
  exact byte_array_written typ several (by omega) armed inside fits next

theorem takes_width (width : Width) (v : width.Value) (typ : String) :
    Takes (andThen (decodeUint width.bits typ) fun num => .ok (width.setUint num))
      (number (width.toNat v)) v := by
  have bound := width_to_nat_lt width v
  have small : width.toNat v < 2 ^ 64 :=
    Nat.lt_of_lt_of_le bound (Nat.pow_le_pow_right (by decide) (width_bits_le width))
  have narrow : putintSize (width.toNat v) ≤ width.bits / 8 := by
    rw [putintSize]
    cases width <;> simp only [Width.bits] at bound ⊢ <;> split_ifs <;> omega
  apply takes_then (takes_map_error (takes_uint small narrow))
  intro s
  rw [set_uint_to_nat]

theorem takes_bool (b : Bool) : Takes decodeBool (number b.toNat) b := by
  have narrow : putintSize b.toNat ≤ 8 / 8 := by cases b <;> decide
  have small : b.toNat < 2 ^ 64 := by cases b <;> decide
  apply takes_map_error
  apply takes_then (takes_uint small narrow)
  intro s
  cases b <;> rfl

theorem minimal_no_zero (n : Nat) : ¬(0 < (minimal n).length ∧ (minimal n).headD 0 = 0) := by
  rintro ⟨some, zero⟩
  by_cases none : n = 0
  · rw [none, minimal, if_pos rfl] at some
    cases some
  · obtain ⟨first, more, bytes, leading⟩ := minimal_leading none
    rw [bytes] at zero
    exact leading zero

theorem takes_big_int {i : Int} (positive : 0 ≤ i) (small : (number i.toNat).length < 2 ^ 64) :
    Takes decodeBigInt (number i.toNat) i := by
  apply takes_then (takes_map_error (takes_string small))
  intro s
  rw [if_neg (minimal_no_zero i.toNat), of_bytes_minimal, Int.toNat_of_nonneg positive]

/-- Inside a list, at its end, every decoder reports the end and nothing else. -/
theorem decoder_at_end (fuel : Nat) (ty : Ty) {s : Stream} (armed : s.kind = none)
    (done : atListEnd s.stack = true) :
    makeDecoder fuel ty s = .error .eol { s with kinderr := none } := by
  have ended := next_kind_at_end armed done
  have uint (bits : Nat) : Stream.uint bits s = .error .eol { s with kinderr := none } :=
    and_then_error ended
  have bytes : Stream.bytes s = .error .eol { s with kinderr := none } := and_then_error ended
  have list : Stream.list s = .error .eol { s with kinderr := none } := and_then_error ended
  cases ty with
  | uint width => exact and_then_error (map_error_error (uint width.bits))
  | bool => exact map_error_error (and_then_error (uint 8))
  | string => exact map_error_error bytes
  | bigInt => exact and_then_error (map_error_error bytes)
  | byteArray n => exact and_then_error (and_then_error ended)
  | slice elem =>
      by_cases byte : elem = .uint .w8
      · subst byte
        exact map_error_error bytes
      · rw [decoder_slice byte]
        exact and_then_error (map_error_error list)
  | struct name fields => exact and_then_error (map_error_error list)

/-- The loop over the elements takes them all and stops at the end of the list. -/
theorem reads_slice_items {ι : Type} {elem : StreamM α} {rlp : ι → List UInt8} {items : List ι}
    {fuel : Nat} (value : ι → α) (each : ∀ v ∈ items, Takes elem (rlp v) (value v))
    (some : ∀ v ∈ items, rlp v ≠ [])
    (ended : ∀ s, s.kind = none → atListEnd s.stack = true →
      elem s = .error .eol { s with kinderr := none })
    (enough : items.length < fuel) (i : Nat) :
    ReadsLast (decodeSliceElems elem fuel i) (items.map rlp).flatten (items.map value) := by
  induction items generalizing fuel i with
  | nil =>
      intro s tos outer rest armed stack full arrived fits
      obtain ⟨fuel, rfl⟩ : ∃ less, fuel = less + 1 := ⟨fuel - 1, by
        rw [List.length_nil] at enough
        omega⟩
      have done : atListEnd s.stack = true := by
        rw [stack]
        exact decide_eq_true full
      exact ⟨_, slice_elems_end (ended s armed done), consumed_nothing armed⟩
  | cons v vs induction =>
      intro s tos outer rest armed stack full arrived fits
      obtain ⟨fuel, rfl⟩ : ∃ less, fuel = less + 1 := ⟨fuel - 1, by omega⟩
      rw [List.length_cons] at enough
      have later : ReadsLast (decodeSliceElems elem fuel (i + 1)) (vs.map rlp).flatten
          (vs.map value) :=
        induction (fun v' member => each v' (List.mem_cons_of_mem v member))
          (fun v' member => some v' (List.mem_cons_of_mem v member)) (by omega) (i + 1)
      -- where the element is read, the loop is the element and then the others
      let others : α → StreamM (List α) := fun v =>
        andThen (decodeSliceElems elem fuel (i + 1)) fun vs => .ok (v :: vs)
      have rest' : ReadsLast (others (value v)) (vs.map rlp).flatten ((v :: vs).map value) :=
        reads_last_then later fun _ => rfl
      have chain := reads_then (some v List.mem_cons_self)
        (reads_of_takes (each v List.mem_cons_self)) rest'
      obtain ⟨s'', ran, consumed⟩ := chain s tos outer rest armed stack full arrived fits
      refine ⟨s'', ?_, consumed⟩
      obtain ⟨v', s', first, ran⟩ := and_then_inv ran
      rw [slice_elems_next first]
      exact ran

theorem reads_slice_elems {elem : StreamM α} {rlp : α → List UInt8} {vs : List α} {fuel : Nat}
    (each : ∀ v ∈ vs, Takes elem (rlp v) v) (some : ∀ v ∈ vs, rlp v ≠ [])
    (ended : ∀ s, s.kind = none → atListEnd s.stack = true →
      elem s = .error .eol { s with kinderr := none })
    (enough : vs.length < fuel) (i : Nat) :
    ReadsLast (decodeSliceElems elem fuel i) (vs.map rlp).flatten vs := by
  have read := reads_slice_items id each some ended enough i
  rwa [List.map_id] at read

end Taking

section RoundTrip

theorem header_list {n : Nat} (small : n < 2 ^ 64) :
    RlpStream.header .list n = Library.Rlp.header 0xC0 n := puthead_header small

theorem takes_struct {α : Type} {fields : StreamM α} {parts : List (List UInt8)} {value : α}
    (typ : String) (small : parts.flatten.length < 2 ^ 64)
    (inner : ReadsLast fields parts.flatten value) :
    Takes (decodeStruct typ fields) (list parts) value := by
  intro s rest armed inside next fits
  rw [list, ← header_list small] at next fits ⊢
  rw [List.append_assoc] at next
  rw [List.length_append] at fits ⊢
  apply struct_written small armed inside fits next
  intro t outer armed arrived stack fits
  exact inner t _ outer rest armed stack (Nat.zero_add _) arrived fits

theorem takes_list_slice {α : Type} {elem : StreamM α} {parts : List (List UInt8)} {vs : List α}
    {fuel : Nat} (typ : String) (small : parts.flatten.length < 2 ^ 64)
    (empty : parts.flatten.length = 0 → vs = [])
    (inner : ReadsLast (decodeSliceElems elem fuel 0) parts.flatten vs) :
    Takes (decodeListSlice typ fuel elem) (list parts) vs := by
  intro s rest armed inside next fits
  rw [list, ← header_list small] at next fits ⊢
  rw [List.append_assoc] at next
  rw [List.length_append] at fits ⊢
  by_cases none : parts.flatten.length = 0
  · -- an empty list is closed at once
    obtain ⟨t, t', s', opened, read, closed, consumed⟩ :=
      list_framed (fun t => .ok vs t) small armed inside fits next (by
        intro t outer armed _ _ _
        rw [none]
        exact ⟨t, rfl, rfl, rfl, rfl, (charge_zero _).symm, armed⟩)
    cases read
    refine ⟨s', ?_, consumed⟩
    rw [decodeListSlice, and_then_ok (map_error_ok opened), if_pos none, and_then_ok closed,
      empty none]
  · obtain ⟨t, t', s', opened, read, closed, consumed⟩ :=
      list_framed (decodeSliceElems elem fuel 0) small armed inside fits next (by
        intro t outer armed arrived stack fits
        exact inner t _ outer rest armed stack (Nat.zero_add _) arrived fits)
    refine ⟨s', ?_, consumed⟩
    rw [decodeListSlice, and_then_ok (map_error_ok opened), if_neg none, and_then_ok read,
      and_then_ok closed]

theorem count_le_length {parts : List (List UInt8)} (some : ∀ part ∈ parts, 0 < part.length) :
    parts.length ≤ parts.flatten.length := by
  induction parts with
  | nil => exact Nat.le_refl 0
  | cons part parts induction =>
      have first := some part List.mem_cons_self
      have later := induction fun part' member => some part' (List.mem_cons_of_mem part member)
      rw [List.length_cons, List.flatten_cons, List.length_append]
      omega

section Elements

variable {fuel : Nat} {elem : Ty} {vs : List elem.Value}

theorem elements_count (vs : List elem.Value) : vs.length ≤ (vs.map elem.rlp).flatten.length := by
  rw [← List.length_map (f := elem.rlp)]
  apply count_le_length
  intro part member
  obtain ⟨v, _, rfl⟩ := List.mem_map.mp member
  exact rlp_length_pos elem v

theorem reads_elements (each : ∀ v ∈ vs, Takes (makeDecoder fuel elem) (elem.rlp v) v)
    (enough : (vs.map elem.rlp).flatten.length < fuel) :
    ReadsLast (decodeSliceElems (makeDecoder fuel elem) fuel 0) (vs.map elem.rlp).flatten vs := by
  have count := elements_count vs
  apply reads_slice_elems each
  · intro v _
    exact List.length_pos_iff.mp (rlp_length_pos elem v)
  · intro s armed done
    exact decoder_at_end fuel elem armed done
  · omega

end Elements

/-- What the encoder writes for a value is read back as the value. -/
theorem decoder_takes (fuel : Nat) :
    (∀ ty v, ty.NonNegative v → Ty.NoSingleByte ty → (ty.rlp v).length < 2 ^ 64 →
      (ty.rlp v).length ≤ fuel → Takes (makeDecoder fuel ty) (ty.rlp v) v) ∧
    (∀ fields v, fields.NonNegative v → Fields.NoSingleByte fields →
      (fields.rlp v).flatten.length < 2 ^ 64 → (fields.rlp v).flatten.length < fuel →
      ∀ typ, ReadsLast (decodeFields fuel typ fields) (fields.rlp v).flatten v) := by
  apply type_induction
  case uint =>
    intro width v _ _ _ _
    exact takes_width width v _
  case bool =>
    intro v _ _ _ _
    exact takes_bool v
  case string =>
    intro v _ _ small _
    exact takes_map_error (takes_string small)
  case bigInt =>
    intro v positive _ small _
    exact takes_big_int positive small
  case byteArray =>
    intro n v _ several small _
    obtain ⟨b, rfl⟩ := v
    apply takes_then (takes_byte_array _ several small)
    intro s
    rw [filled, dif_pos rfl]
  case slice =>
    intro elem induction v positive several small enough
    by_cases byte : elem = .uint .w8
    · subst byte
      exact takes_map_error (takes_string small)
    · rw [decoder_slice byte, rlp_slice byte]
      rw [rlp_slice byte] at small enough
      have payload := payload_length_lt (v.map elem.rlp)
      have count := elements_count v
      apply takes_list_slice _ (by omega)
      · intro none
        exact List.eq_nil_of_length_eq_zero (by omega)
      · apply reads_elements _ (by omega)
        intro value member
        have part := part_length_le (List.mem_map_of_mem (f := elem.rlp) member)
        exact induction value (positive value member) several (by omega) (by omega)
  case struct =>
    intro name fields induction v positive several small enough
    have bound : (list (fields.rlp v)).length < 2 ^ 64 := small
    have room : (list (fields.rlp v)).length ≤ fuel := enough
    have payload := payload_length_lt (fields.rlp v)
    apply takes_struct name (by omega)
    exact induction v positive several (by omega) (by omega) name
  case done =>
    intro v _ _ _ _ typ s tos outer rest armed stack full arrived fits
    exact ⟨s, rfl, rfl, rfl, rfl, (charge_zero _).symm, armed⟩
  case tail =>
    intro name elem induction v positive several small enough typ
    by_cases byte : elem = .uint .w8
    · subst byte
      have parts : ((Fields.tail name (.uint .w8)).rlp v).flatten = string v :=
        List.flatten_singleton
      rw [parts] at small ⊢
      have some := Library.Rlp.string_length_pos v
      apply reads_last_of_takes (List.length_pos_iff.mp some)
      exact takes_map_error (takes_map_error (takes_string small))
    · rw [decoder_tail byte, rlp_tail byte]
      rw [rlp_tail byte] at small enough
      have inner : ReadsLast (decodeSliceElems (makeDecoder fuel elem) fuel 0)
          (v.map elem.rlp).flatten v := by
        apply reads_elements _ enough
        intro value member
        have part := part_length_le (List.mem_map_of_mem (f := elem.rlp) member)
        exact induction value (positive value member) several (by omega) (by omega)
      intro s tos outer rest armed stack full next fits
      obtain ⟨s', read, consumed⟩ := inner s tos outer rest armed stack full next fits
      exact ⟨s', map_error_ok read, consumed⟩
  case field =>
    intro name ty rest head tail v positive several small enough typ
    have parts : ((Fields.field name ty rest).rlp v).flatten =
        ty.rlp v.1 ++ (rest.rlp v.2).flatten := rfl
    rw [parts] at small enough ⊢
    rw [List.length_append] at small enough
    have some := rlp_length_pos ty v.1
    have first := head v.1 positive.1 several.1 (by omega) (by omega)
    have later := tail v.2 positive.2 several.2 (by omega) (by omega) typ
    exact reads_field typ name (List.length_pos_iff.mp some) (reads_of_takes first)
      (reads_last_then later fun _ => rfl)

theorem decode_bytes_taken {fuel : Nat} {ty : Ty} {v : ty.Value} {bytes : List UInt8}
    (takes : Takes (makeDecoder fuel ty) bytes v) : decodeBytes fuel ty bytes = .ok v := by
  have fits : Fits (newStream bytes bytes.length) bytes.length := by
    refine ⟨rfl, Nat.le_refl _, ?_, rfl⟩
    simp only [newStream]
    split_ifs <;> omega
  obtain ⟨s', read, consumed⟩ :=
    takes (newStream bytes bytes.length) [] rfl rfl (List.append_nil _).symm fits
  have finished : s'.r = [] := by
    rw [consumed.r]
    exact List.drop_length
  rw [decodeBytes, RlpStream.decode, map_error_ok read]
  dsimp only
  rw [finished]
  rfl

/-- A value that is encoded and decoded again is the same value, and nothing is left
of the input. -/
theorem decode_encoded_value (ty : Ty) (plain : Ty.NoSingleByte ty) (v : ty.Value)
    (positive : ty.NonNegative v) (addressable : (ty.rlp v).length ≤ maxInt) (fuel : Nat)
    (enough : (ty.rlp v).length ≤ fuel) :
    ∃ b, encodeToBytes ty v = .ok b ∧ decodeBytes fuel ty b = .ok v := by
  have small : (ty.rlp v).length < 2 ^ 64 := Nat.lt_of_le_of_lt addressable (by decide)
  have takes := (decoder_takes fuel).1 ty v positive plain small enough
  refine ⟨ty.rlp v, ?_, decode_bytes_taken takes⟩
  exact encode_to_bytes_rlp positive addressable

theorem decode_encoded_sample :
    Ty.NoSingleByte sampleTy ∧
      ∃ b, encodeToBytes sampleTy sample = .ok b ∧ decodeBytes 17 sampleTy b = .ok sample := by
  have plain : Ty.NoSingleByte sampleTy := by
    simp [Ty.NoSingleByte, Fields.NoSingleByte]
  have size : (sampleTy.rlp sample).length = 17 := by
    rw [sample_rlp]
    rfl
  refine ⟨plain, decode_encoded_value sampleTy plain sample sample_non_negative ?_ 17 ?_⟩
  · rw [size]
    decide
  · rw [size]

end RoundTrip

end PbftBlock.RlpDecoders
