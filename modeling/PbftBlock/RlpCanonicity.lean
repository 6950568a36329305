import PbftBlock.RlpListEnds

/-!
# Canonicity of RLP

The input that `DecodeBytes` accepts is determined by the value it returns. It is the
encoding of that value, except where a `[1]byte` field that holds zero is followed by
another item of the same struct: the decoder of the array leaves its header behind,
and the next decoder reads it a second time.
-/

namespace PbftBlock.RlpCanonicity

open PbftBlock.Library.BigEndian PbftBlock.Library.FallibleMethods PbftBlock.RlpTypes
open PbftBlock.RlpStream PbftBlock.RlpWriters PbftBlock.RlpReaders PbftBlock.RlpDecoders
open PbftBlock.RlpAcceptance PbftBlock.RlpListEnds
open PbftBlock.RlpEncoding hiding encodeToBytes encode
open PbftBlock.Library.Rlp (string number list list_length header_length_mono)

set_option autoImplicit false

/-- The value is a zero byte in an array, whose header is read but not taken. -/
def leavesByte : (ty : Ty) → ty.Value → Bool
  | .byteArray _, v => v.1 = [0]
  | _, _ => false

mutual
/-- The bytes that the decoder takes for a value. -/
def taken : (ty : Ty) → ty.Value → List UInt8
  | .uint width, v => (Ty.uint width).rlp v
  | .bool, v => Ty.bool.rlp v
  | .string, v => Ty.string.rlp v
  | .bigInt, v => Ty.bigInt.rlp v
  | .byteArray n, v => (Ty.byteArray n).rlp v
  | .slice (.uint .w8), v => string v
  | .slice elem, v => list (v.map (taken elem))
  | .struct _ fields, v => list (takenFields fields false v)
/-- The items that the decoder takes for the fields; nothing for one that starts where
a header was left. -/
def takenFields : (fields : Fields) → Bool → fields.Value → List (List UInt8)
  | .done, _, _ => []
  | .tail _ (.uint .w8), stale, v => if stale then [] else [string v]
  | .tail _ elem, stale, v => (if stale then v.drop 1 else v).map (taken elem)
  | .field _ ty rest, stale, v =>
      (if stale then [] else [taken ty v.1]) ++ takenFields rest (leavesByte ty v.1) v.2
end

mutual
/-- In no struct of the value is a `[1]byte` field that holds zero followed by another
item. -/
def Settled : (ty : Ty) → ty.Value → Prop
  | .uint _, _ => True
  | .bool, _ => True
  | .string, _ => True
  | .bigInt, _ => True
  | .byteArray _, _ => True
  | .slice elem, v => ∀ value ∈ v, Settled elem value
  | .struct _ fields, v => SettledFields fields v
def SettledFields : (fields : Fields) → fields.Value → Prop
  | .done, _ => True
  | .tail _ elem, v => ∀ value ∈ v, Settled elem value
  | .field _ ty rest, v =>
      Settled ty v.1 ∧ SettledFields rest v.2 ∧ (leavesByte ty v.1 = true → rest.rlp v.2 = [])
end

section Slices

variable {elem : Ty} (notByte : elem ≠ .uint .w8)

include notByte

theorem taken_slice (v : List elem.Value) : taken (.slice elem) v = list (v.map (taken elem)) := by
  rw [taken]
  exact fun _ _ byte => notByte byte

theorem taken_tail (name : String) (stale : Bool) (v : List elem.Value) :
    takenFields (.tail name elem) stale v =
      (if stale then v.drop 1 else v).map (taken elem) := by
  rw [takenFields]
  exact fun _ byte _ => notByte byte

end Slices

section Decoded

variable {s s' : Stream} {fuel : Nat}

/-- What a successful decoder has done to the stream. -/
structure Took (ty : Ty) (v : ty.Value) (bytes : List UInt8) (s s' : Stream) : Prop where
  ate : Ate s bytes s'
  resumes : Resumes (leavesByte ty v) s'
  positive : ty.NonNegative v

theorem took_uint {width : Width} {v : width.Value} (armed : s.kind = none)
    (ran : makeDecoder fuel (.uint width) s = .ok v s') :
    Took (.uint width) v (taken (.uint width) v) s s' := by
  obtain ⟨num, t, read, ran⟩ := and_then_inv ran
  cases ran
  have room : 1 ≤ width.bits / 8 := by cases width <;> decide
  have power : 256 ^ (width.bits / 8) = 2 ^ width.bits := by cases width <;> rfl
  obtain ⟨ate, bound, rearmed⟩ := uint_inv room armed (map_error_inv read)
  rw [power] at bound
  refine ⟨?_, rearmed, trivial⟩
  rw [taken, Ty.rlp, to_nat_set_uint width bound]
  exact ate

theorem took_bool {v : Bool} (armed : s.kind = none) (ran : makeDecoder fuel .bool s = .ok v s') :
    Took .bool v (taken .bool v) s s' := by
  obtain ⟨num, t, read, ran⟩ := and_then_inv (map_error_inv ran)
  obtain ⟨ate, _, rearmed⟩ := uint_inv (by decide) armed read
  rcases num with _ | _ | num
  · cases ran
    exact ⟨ate, rearmed, trivial⟩
  · cases ran
    exact ⟨ate, rearmed, trivial⟩
  · cases ran

theorem took_big_int {v : Int} (armed : s.kind = none)
    (ran : makeDecoder fuel .bigInt s = .ok v s') : Took .bigInt v (taken .bigInt v) s s' := by
  obtain ⟨b, t, read, ran⟩ := and_then_inv ran
  obtain ⟨ate, rearmed⟩ := bytes_inv armed (map_error_inv read)
  split_ifs at ran with zero
  cases ran
  have canonical : ∀ more, b ≠ 0 :: more := by
    rintro more rfl
    exact zero ⟨Nat.succ_pos _, rfl⟩
  refine ⟨?_, rearmed, Int.natCast_nonneg _⟩
  rw [taken, Ty.rlp, Int.toNat_natCast, number, minimal_of_bytes canonical]
  exact ate

theorem took_byte_array {n : Nat} {v : (Ty.byteArray n).Value} (armed : s.kind = none)
    (ran : makeDecoder fuel (.byteArray n) s = .ok v s') :
    Took (.byteArray n) v (taken (.byteArray n) v) s s' := by
  obtain ⟨b, t, read, ran⟩ := and_then_inv ran
  obtain ⟨count, ate, resumes⟩ := byte_array_inv armed read
  rw [filled, dif_pos count] at ran
  cases ran
  exact ⟨ate, resumes, trivial⟩

/-- A decoder that starts at a header that was left takes nothing. -/
theorem decoder_stale {ty : Ty} {v : ty.Value} (stale : Stale s)
    (ran : makeDecoder fuel ty s = .ok v s') : Took ty v [] s s' := by
  cases ty with
  | uint width =>
      obtain ⟨num, t, read, _⟩ := and_then_inv ran
      exact absurd (map_error_inv read) (uint_stale stale)
  | bool =>
      obtain ⟨num, t, read, _⟩ := and_then_inv (map_error_inv ran)
      exact absurd read (uint_stale stale)
  | string =>
      obtain ⟨_, ate, rearmed⟩ := bytes_stale stale (map_error_inv ran)
      exact ⟨ate, rearmed, trivial⟩
  | bigInt =>
      obtain ⟨b, t, read, ran⟩ := and_then_inv ran
      obtain ⟨rfl, _, _⟩ := bytes_stale stale (map_error_inv read)
      cases ran
  | byteArray n =>
      obtain ⟨b, t, read, stored⟩ := and_then_inv ran
      obtain ⟨rfl, count, rfl⟩ := byte_array_stale stale read
      rw [filled, dif_pos count] at stored
      cases stored
      exact ⟨ate_nothing rfl rfl, stale, trivial⟩
  | slice elem =>
      by_cases byte : elem = .uint .w8
      · subst byte
        obtain ⟨_, ate, rearmed⟩ := bytes_stale stale (map_error_inv ran)
        refine ⟨ate, rearmed, ?_⟩
        intro value _
        trivial
      · rw [decoder_slice byte] at ran
        obtain ⟨size, t, opened, _⟩ := and_then_inv ran
        exact absurd (map_error_inv opened) (list_stale stale)
  | struct name fields =>
      obtain ⟨size, t, opened, _⟩ := and_then_inv ran
      exact absurd (map_error_inv opened) (list_stale stale)

/-- Over a slice of `[1]byte` the loop finds a header that was left again and again. -/
theorem zero_array_loop (stale : Stale s) (rounds i : Nat) :
    decodeSliceElems (makeDecoder fuel (.byteArray 1)) rounds i s = .error .endless s := by
  have again : makeDecoder fuel (.byteArray 1) s = .ok ⟨[0], rfl⟩ s := by
    have read : decodeByteArray 1 (Ty.byteArray 1).text s = .ok [0] s := by
      rw [decodeByteArray, and_then_ok (next_kind_stale stale)]
      dsimp only
      rw [if_neg (by decide), if_neg (by decide), uint_cached stale.kind stale.kinderr, if_pos stale.byteval]
    exact and_then_ok read
  induction rounds generalizing i with
  | zero => rfl
  | succ rounds induction =>
      rw [slice_elems_next again]
      exact and_then_error (induction (i + 1))

theorem loop_not_stale {elem : Ty} {v : elem.Value} {vs : List elem.Value} {rounds i : Nat}
    (resumes : Resumes (leavesByte elem v) s)
    (ran : decodeSliceElems (makeDecoder fuel elem) rounds i s = .ok vs s') :
    leavesByte elem v = false := by
  by_contra left
  rw [Bool.not_eq_false] at left
  cases elem with
  | byteArray n =>
      have zero : v.1 = [0] := of_decide_eq_true left
      have one : n = 1 := by rw [← v.2, zero, List.length_singleton]
      subst one
      rw [left] at resumes
      rw [zero_array_loop resumes] at ran
      cases ran
  | uint width => cases left
  | bool => cases left
  | string => cases left
  | bigInt => cases left
  | slice elem => cases left
  | struct name fields => cases left

/-- The elements of a slice, the first of which may start at a header that was left. -/
theorem elems_took {elem : Ty}
    (each : ∀ s v s', s.kind = none → makeDecoder fuel elem s = .ok v s' →
      Took elem v (taken elem v) s s')
    (rounds i : Nat) (stale : Bool) {vs : List elem.Value} (start : Resumes stale s)
    (ran : decodeSliceElems (makeDecoder fuel elem) rounds i s = .ok vs s') :
    Ate s ((if stale then vs.drop 1 else vs).map (taken elem)).flatten s' ∧
      ∀ v ∈ vs, elem.NonNegative v := by
  induction rounds generalizing i stale s vs with
  | zero => cases ran
  | succ rounds induction =>
      cases read : makeDecoder fuel elem s with
      | error err t =>
          by_cases eol : err = .eol
          · subst eol
            rw [slice_elems_end read] at ran
            cases ran
            have state : s.kind = none ∨ Stale s := by
              cases stale with
              | true => exact .inr start
              | false => exact .inl start
            refine ⟨?_, fun v member => absurd member List.not_mem_nil⟩
            rw [List.drop_nil, ite_self]
            exact (eol_first_decoder fuel elem s s' state read).1
          · rw [slice_elems_error eol read] at ran
            cases ran
      | ok v t =>
          rw [slice_elems_next read] at ran
          obtain ⟨vs', t', loop, ran⟩ := and_then_inv ran
          cases ran
          have first : Took elem v (if stale then [] else taken elem v) s t := by
            cases stale with
            | true => exact decoder_stale start read
            | false => exact each s v t start read
          have fresh := loop_not_stale first.resumes loop
          have resumes := first.resumes
          rw [fresh] at resumes
          obtain ⟨ate, positive⟩ := induction (i + 1) false resumes loop
          refine ⟨?_, ?_⟩
          · have joined := ate_trans first.ate ate
            cases stale with
            | true => exact joined
            | false => exact joined
          · intro value member
            rcases List.mem_cons.mp member with rfl | member
            · exact first.positive
            · exact positive value member

/-- Whatever a decoder accepts, it has taken the bytes that belong to the value. -/
theorem decoder_took (fuel : Nat) :
    (∀ ty s v s', s.kind = none → makeDecoder fuel ty s = .ok v s' →
      Took ty v (taken ty v) s s') ∧
    (∀ fields typ stale s v s', Resumes stale s → decodeFields fuel typ fields s = .ok v s' →
      Ate s (takenFields fields stale v).flatten s' ∧ fields.NonNegative v) := by
  apply type_induction
  case uint =>
    intro width s v s' armed ran
    exact took_uint armed ran
  case bool =>
    intro s v s' armed ran
    exact took_bool armed ran
  case string =>
    intro s v s' armed ran
    obtain ⟨ate, rearmed⟩ := bytes_inv armed (map_error_inv ran)
    exact ⟨ate, rearmed, trivial⟩
  case bigInt =>
    intro s v s' armed ran
    exact took_big_int armed ran
  case byteArray =>
    intro n s v s' armed ran
    exact took_byte_array armed ran
  case slice =>
    intro elem induction s v s' armed ran
    by_cases byte : elem = .uint .w8
    · subst byte
      obtain ⟨ate, rearmed⟩ := bytes_inv armed (map_error_inv ran)
      exact ⟨ate, rearmed, fun value _ => trivial⟩
    · rw [decoder_slice byte] at ran
      obtain ⟨size, t, opened, ran⟩ := and_then_inv ran
      have opened := map_error_inv opened
      have inside := (list_inv armed opened).2.2
      rw [taken_slice byte]
      split_ifs at ran with empty
      · obtain ⟨_, t', closed, ran⟩ := and_then_inv ran
        cases ran
        have nothing : Ate t ([] : List (List UInt8)).flatten t := ate_nothing rfl rfl
        obtain ⟨ate, rearmed⟩ := framed_inv armed opened nothing closed
        exact ⟨ate, rearmed, fun value member => absurd member List.not_mem_nil⟩
      · obtain ⟨values, t', loop, ran⟩ := and_then_inv ran
        obtain ⟨_, t'', closed, ran⟩ := and_then_inv ran
        cases ran
        obtain ⟨inner, positive⟩ := elems_took induction fuel 0 false inside loop
        obtain ⟨ate, rearmed⟩ := framed_inv armed opened inner closed
        exact ⟨ate, rearmed, positive⟩
  case struct =>
    intro name fields induction s v s' armed ran
    obtain ⟨size, t, opened, ran⟩ := and_then_inv ran
    have opened := map_error_inv opened
    have inside := (list_inv armed opened).2.2
    obtain ⟨values, t', read, ran⟩ := and_then_inv ran
    obtain ⟨_, t'', closed, ran⟩ := and_then_inv ran
    cases ran
    obtain ⟨inner, positive⟩ := induction name false t v t' inside read
    obtain ⟨ate, rearmed⟩ := framed_inv armed opened inner (map_error_inv closed)
    exact ⟨ate, rearmed, positive⟩
  case done =>
    intro typ stale s v s' start ran
    cases ran
    exact ⟨ate_nothing rfl rfl, trivial⟩
  case tail =>
    intro name elem induction typ stale s v s' start ran
    by_cases byte : elem = .uint .w8
    · subst byte
      have read := map_error_inv (map_error_inv ran)
      refine ⟨?_, fun value _ => trivial⟩
      cases stale with
      | true => exact (bytes_stale start read).2.1
      | false =>
          have parts : (takenFields (.tail name (.uint .w8)) false v).flatten = string v :=
            List.flatten_singleton
          rw [parts]
          exact (bytes_inv start read).1
    · rw [decoder_tail byte] at ran
      rw [taken_tail byte]
      exact elems_took induction fuel 0 stale start (map_error_inv ran)
  case field =>
    intro name ty rest head tail typ stale s v s' start ran
    obtain ⟨first, t, read, ran⟩ := and_then_inv ran
    obtain ⟨others, t', later, ran⟩ := and_then_inv ran
    cases ran
    have read := map_error_inv read
    have took : Took ty first (if stale then [] else taken ty first) s t := by
      cases stale with
      | true => exact decoder_stale start read
      | false => exact head s first t start read
    obtain ⟨ate, positive⟩ := tail typ (leavesByte ty first) t others s' took.resumes later
    refine ⟨?_, took.positive, positive⟩
    have joined := ate_trans took.ate ate
    cases stale with
    | true => exact joined
    | false => exact joined

theorem decode_bytes_took {ty : Ty} {b : List UInt8} {v : ty.Value}
    (decoded : decodeBytes fuel ty b = .ok v) : b = taken ty v ∧ ty.NonNegative v := by
  unfold decodeBytes at decoded
  cases ran : RlpStream.decode ty.text (makeDecoder fuel ty) (newStream b b.length) with
  | error err s =>
      rw [ran] at decoded
      cases decoded
  | ok value s =>
      rw [ran] at decoded
      dsimp only at decoded
      split_ifs at decoded with more
      cases decoded
      have took := (decoder_took fuel).1 ty _ v s rfl (map_error_inv ran)
      have finished : s.r = [] := List.eq_nil_of_length_eq_zero (by omega)
      have all := took.ate.r
      rw [finished, List.append_nil] at all
      exact ⟨all, took.positive⟩

end Decoded

section Lengths

theorem settled_taken :
    (∀ ty v, Settled ty v → taken ty v = ty.rlp v) ∧
    (∀ fields v, SettledFields fields v → ∀ stale, (stale = true → fields.rlp v = []) →
      takenFields fields stale v = fields.rlp v) := by
  apply type_induction
  case uint =>
    intro width v _
    rw [taken]
  case bool =>
    intro v _
    rw [taken]
  case string =>
    intro v _
    rw [taken]
  case bigInt =>
    intro v _
    rw [taken]
  case byteArray =>
    intro n v _
    rw [taken]
  case slice =>
    intro elem induction v settled
    by_cases byte : elem = .uint .w8
    · subst byte
      rfl
    · rw [taken_slice byte, rlp_slice byte]
      apply congrArg list
      exact List.map_congr_left fun value member => induction value (settled value member)
  case struct =>
    intro name fields induction v settled
    apply congrArg list
    exact induction v settled false fun never => absurd never Bool.false_ne_true
  case done =>
    intro v _ stale _
    rfl
  case tail =>
    intro name elem induction v settled stale last
    by_cases byte : elem = .uint .w8
    · subst byte
      cases stale with
      | true => exact absurd (last rfl) (List.cons_ne_nil _ _)
      | false => rfl
    · rw [rlp_tail byte] at last
      rw [taken_tail byte, rlp_tail byte]
      cases stale with
      | true =>
          have none : v = [] := List.map_eq_nil_iff.mp (last rfl)
          rw [none]
          rfl
      | false =>
          exact List.map_congr_left fun value member => induction value (settled value member)
  case field =>
    intro name ty rest head tail v settled stale last
    cases stale with
    | true => exact absurd (last rfl) (List.cons_ne_nil _ _)
    | false =>
        have first := head v.1 settled.1
        have later := tail v.2 settled.2.1 (leavesByte ty v.1) settled.2.2
        change taken ty v.1 :: takenFields rest (leavesByte ty v.1) v.2 = ty.rlp v.1 :: rest.rlp v.2
        rw [first, later]

/-- The left bytes are not more than the right ones, and as many only if the
condition holds. -/
def NotLonger (left right : List UInt8) (condition : Prop) : Prop :=
  left.length ≤ right.length ∧ (right.length ≤ left.length → condition)

theorem not_longer_same (bytes : List UInt8) {condition : Prop} (holds : condition) :
    NotLonger bytes bytes condition := ⟨Nat.le_refl _, fun _ => holds⟩

theorem not_longer_append {left right left' right' : List UInt8} {first second : Prop}
    (head : NotLonger left right first) (tail : NotLonger left' right' second) :
    NotLonger (left ++ left') (right ++ right') (first ∧ second) := by
  obtain ⟨less, equal⟩ := head
  obtain ⟨less', equal'⟩ := tail
  refine ⟨?_, ?_⟩
  · rw [List.length_append, List.length_append]
    omega
  · rw [List.length_append, List.length_append]
    intro same
    exact ⟨equal (by omega), equal' (by omega)⟩

theorem not_longer_elems {α : Type} {left right : α → List UInt8} {condition : α → Prop}
    (each : ∀ v, NotLonger (left v) (right v) (condition v)) (vs : List α) :
    NotLonger (vs.map left).flatten (vs.map right).flatten (∀ v ∈ vs, condition v) := by
  induction vs with
  | nil => exact not_longer_same [] fun v member => absurd member List.not_mem_nil
  | cons v vs induction =>
      have both := not_longer_append (each v) induction
      refine ⟨both.1, fun same => ?_⟩
      obtain ⟨first, later⟩ := both.2 same
      intro value member
      rcases List.mem_cons.mp member with rfl | member
      · exact first
      · exact later value member

theorem not_longer_list {left right : List (List UInt8)} {condition : Prop}
    (payload : NotLonger left.flatten right.flatten condition) :
    NotLonger (list left) (list right) condition := by
  obtain ⟨less, equal⟩ := payload
  have front := header_length_mono 0xC0 less
  refine ⟨?_, ?_⟩
  · rw [list_length, list_length]
    omega
  · rw [list_length, list_length]
    intro same
    exact equal (by omega)

theorem taken_not_longer :
    (∀ ty v, NotLonger (taken ty v) (ty.rlp v) (Settled ty v)) ∧
    (∀ fields v stale, NotLonger (takenFields fields stale v).flatten (fields.rlp v).flatten
      (SettledFields fields v ∧ (stale = true → fields.rlp v = []))) := by
  apply type_induction
  case uint =>
    intro width v
    exact not_longer_same _ trivial
  case bool =>
    intro v
    exact not_longer_same _ trivial
  case string =>
    intro v
    exact not_longer_same _ trivial
  case bigInt =>
    intro v
    exact not_longer_same _ trivial
  case byteArray =>
    intro n v
    exact not_longer_same _ trivial
  case slice =>
    intro elem induction v
    by_cases byte : elem = .uint .w8
    · subst byte
      exact not_longer_same _ fun value _ => trivial
    · rw [taken_slice byte, rlp_slice byte]
      exact not_longer_list (not_longer_elems induction v)
  case struct =>
    intro name fields induction v
    obtain ⟨less, equal⟩ := not_longer_list (induction v false)
    exact ⟨less, fun same => (equal same).1⟩
  case done =>
    intro v stale
    exact not_longer_same _ ⟨trivial, fun _ => rfl⟩
  case tail =>
    intro name elem induction v stale
    by_cases byte : elem = .uint .w8
    · subst byte
      have settled : ∀ value ∈ v, Settled (.uint .w8) value := fun value _ => trivial
      cases stale with
      | true =>
          have some := Library.Rlp.string_length_pos v
          refine ⟨Nat.zero_le _, fun same => absurd same (Nat.not_le.mpr ?_)⟩
          change 0 < [string v].flatten.length
          rw [List.flatten_singleton]
          exact some
      | false => exact not_longer_same _ ⟨settled, fun never => absurd never Bool.false_ne_true⟩
    · rw [taken_tail byte, rlp_tail byte]
      cases stale with
      | true =>
          cases v with
          | nil => exact not_longer_same [] ⟨fun v member => absurd member List.not_mem_nil, fun _ => rfl⟩
          | cons first others =>
              have some := rlp_length_pos elem first
              have less := (not_longer_elems induction others).1
              have longer : ((others.map (taken elem)).flatten).length <
                  (((first :: others).map elem.rlp).flatten).length := by
                rw [List.map_cons, List.flatten_cons, List.length_append]
                omega
              exact ⟨Nat.le_of_lt longer, fun same => absurd same (Nat.not_le.mpr longer)⟩
      | false =>
          obtain ⟨less, equal⟩ := not_longer_elems induction v
          exact ⟨less, fun same => ⟨equal same, fun never => absurd never Bool.false_ne_true⟩⟩
  case field =>
    intro name ty rest head tail v stale
    have later := tail v.2 (leavesByte ty v.1)
    cases stale with
    | true =>
        have some := rlp_length_pos ty v.1
        have longer : ((takenFields rest (leavesByte ty v.1) v.2).flatten).length <
            ((ty.rlp v.1 :: rest.rlp v.2).flatten).length := by
          have less := later.1
          rw [List.flatten_cons, List.length_append]
          omega
        exact ⟨Nat.le_of_lt longer, fun same => absurd same (Nat.not_le.mpr longer)⟩
    | false =>
        obtain ⟨less, equal⟩ := not_longer_append (head v.1) later
        refine ⟨less, fun same => ?_⟩
        obtain ⟨first, others, left⟩ := equal same
        exact ⟨⟨first, others, left⟩, fun never => absurd never Bool.false_ne_true⟩

/-- The decoder takes the encoding of the value exactly when no header was read
twice. -/
theorem taken_eq_iff (ty : Ty) (v : ty.Value) : taken ty v = ty.rlp v ↔ Settled ty v := by
  constructor
  · intro same
    exact (taken_not_longer.1 ty v).2 (Nat.le_of_eq (by rw [same]))
  · exact settled_taken.1 ty v

end Lengths

section Canonicity

/-- What `DecodeBytes` accepts is determined by the value it returns, and it is the
encoding of the value exactly when no `[1]byte` field that holds zero is followed by
another item of its struct. -/
theorem accepted_input_canonical_iff (fuel : Nat) (ty : Ty) (b : List UInt8) (v : ty.Value)
    (decoded : decodeBytes fuel ty b = .ok v) (addressable : (ty.rlp v).length ≤ maxInt) :
    (encodeToBytes ty v = .ok b ↔ Settled ty v) ∧ b = taken ty v ∧
      ∀ fuel' b', decodeBytes fuel' ty b' = .ok v → b' = b := by
  obtain ⟨rfl, positive⟩ := decode_bytes_took decoded
  refine ⟨?_, rfl, ?_⟩
  · rw [encode_to_bytes_rlp positive addressable, ← taken_eq_iff, Except.ok.injEq]
    exact eq_comm
  · intro fuel' b' decoded'
    exact (decode_bytes_took decoded').1

abbrev pairTy : Ty :=
  .struct "pair" (.field "A" (.byteArray 1) (.field "B" (.byteArray 1) .done))

def pairOf (a b : UInt8) : pairTy.Value := (⟨[a], rfl⟩, ⟨[b], rfl⟩, ())

/-- A zero in the last field does no harm. -/
theorem pair_input_canonical :
    decodeBytes 0 pairTy [0xC2, 0x01, 0x00] = .ok (pairOf 1 0) ∧
      encodeToBytes pairTy (pairOf 1 0) = .ok [0xC2, 0x01, 0x00] := by
  have decoded : decodeBytes 0 pairTy [0xC2, 0x01, 0x00] = .ok (pairOf 1 0) := by decide +kernel
  have size : (pairTy.rlp (pairOf 1 0)).length = 3 := by decide +kernel
  have short : (pairTy.rlp (pairOf 1 0)).length ≤ maxInt := by
    rw [size]
    decide
  have settled : Settled pairTy (pairOf 1 0) :=
    ⟨trivial, ⟨trivial, trivial, fun _ => rfl⟩, fun left => absurd left Bool.false_ne_true⟩
  exact ⟨decoded, (accepted_input_canonical_iff 0 pairTy _ _ decoded short).1.mpr settled⟩

/-- The one zero in the list is read for both fields. -/
theorem zero_byte_read_twice :
    decodeBytes 0 pairTy [0xC1, 0x00] = .ok (pairOf 0 0) ∧
      encodeToBytes pairTy (pairOf 0 0) = .ok [0xC2, 0x00, 0x00] := by
  decide +kernel

end Canonicity

end PbftBlock.RlpCanonicity
