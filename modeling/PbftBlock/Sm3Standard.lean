import PbftBlock.Library.Words
import PbftBlock.Sm3
import Mathlib.Data.List.Basic
import Mathlib.Data.List.GetD

/-!
# SM3 and its specification

The specification expands a block by a recurrence, runs sixty-four rounds over it and
iterates that compression over the padded message. Writing in chunks and asking for
the digest once computes it. Asking for the digest is not the read that `hash.Hash`
describes: `Sum` absorbs its argument, returns the digest alone, and leaves the
compressed padding in the object.
-/

namespace PbftBlock.Sm3

open PbftBlock.Library.BigEndian PbftBlock.Library.BlockAbsorption
open PbftBlock.Library.Words

set_option autoImplicit false

/-! ## The specification -/

def constant (j : Nat) : UInt32 := if j ≤ 15 then 0x79cc4519 else 0x7a879d8a

def booleanFF (j : Nat) (x y z : UInt32) : UInt32 :=
  if j ≤ 15 then x ^^^ y ^^^ z else (x &&& y) ||| (x &&& z) ||| (y &&& z)

def booleanGG (j : Nat) (x y z : UInt32) : UInt32 :=
  if j ≤ 15 then x ^^^ y ^^^ z else (x &&& y) ||| (~~~x &&& z)

def permutation0 (x : UInt32) : UInt32 := x ^^^ rotateLeft x 9 ^^^ rotateLeft x 17

def permutation1 (x : UInt32) : UInt32 := x ^^^ rotateLeft x 15 ^^^ rotateLeft x 23

def expanded (block : List UInt8) (j : Nat) : UInt32 :=
  if j < 16 then UInt32.ofNat (ofBytes ((block.drop (4 * j)).take 4))
  else
    permutation1 (expanded block (j - 16) ^^^ expanded block (j - 9) ^^^
      rotateLeft (expanded block (j - 3)) 15) ^^^
      rotateLeft (expanded block (j - 13)) 7 ^^^ expanded block (j - 6)
termination_by j
decreasing_by all_goals omega

def standardRound (block : List UInt8) (v : Digest) (j : Nat) : Digest :=
  let ss1 := rotateLeft (rotateLeft v.a 12 + v.e + rotateLeft (constant j) (j % 32)) 7
  let ss2 := ss1 ^^^ rotateLeft v.a 12
  let tt1 := booleanFF j v.a v.b v.c + v.d + ss2 + (expanded block j ^^^ expanded block (j + 4))
  let tt2 := booleanGG j v.e v.f v.g + v.h + ss1 + expanded block j
  { a := tt1, b := v.a, c := rotateLeft v.b 9, d := v.c
    e := permutation0 tt2, f := v.e, g := rotateLeft v.f 19, h := v.g }

def standardCompress (v : Digest) (block : List UInt8) : Digest :=
  let r := (List.range 64).foldl (standardRound block) v
  { a := r.a ^^^ v.a, b := r.b ^^^ v.b, c := r.c ^^^ v.c, d := r.d ^^^ v.d
    e := r.e ^^^ v.e, f := r.f ^^^ v.f, g := r.g ^^^ v.g, h := r.h ^^^ v.h }

def initialValue : Digest :=
  { a := 0x7380166f, b := 0x4914b2b9, c := 0x172442d7, d := 0xda8a0600
    e := 0xa96f30bc, f := 0x163138aa, g := 0xe38dee4d, h := 0xb0fb0e4e }

/-- The number of zeros after the one bit and its seven: the least that leaves eight
bytes in the last block. -/
def zeros (length : Nat) : Nat := (119 - length % 64) % 64

def padded (m : List UInt8) : List UInt8 :=
  m ++ [0x80] ++ List.replicate (zeros m.length) 0 ++ toBytes 8 (8 * m.length)

def standardHash (m : List UInt8) : List UInt8 :=
  digestBytes (absorbWhole 64 standardCompress initialValue (padded m))

/-! ## The code computes it -/

theorem left_rotate_eq (x i : UInt32) : leftRotate x i = rotateLeft x (i.toNat % 32) := by
  have below : i % 32 < 32 := by
    rw [UInt32.lt_iff_toNat_lt, UInt32.toNat_mod]
    exact Nat.mod_lt _ (by decide)
  rw [leftRotate, shifts_eq_rotate_left x below, UInt32.toNat_mod]
  rfl

theorem getD_range_map (f : Nat → UInt32) {k n : Nat} (inside : k < n) :
    ((List.range n).map f).getD k 0 = f k := by
  rw [List.getD_eq_getElem _ _ (by rw [List.length_map, List.length_range]; exact inside),
    List.getElem_map, List.getElem_range]

theorem p0_eq (x : UInt32) : p0 x = permutation0 x := by
  rw [p0, left_rotate_eq, left_rotate_eq]
  rfl

theorem p1_eq (x : UInt32) : p1 x = permutation1 x := by
  rw [p1, left_rotate_eq, left_rotate_eq]
  rfl

theorem schedule_from (block : List UInt8) (n : Nat) :
    extend^[n] (blockWords block) = (List.range (16 + n)).map (expanded block) := by
  induction n with
  | zero =>
      rw [Function.iterate_zero, id_eq, blockWords]
      apply List.map_congr_left
      intro j inside
      rw [expanded, if_pos (List.mem_range.mp inside)]
  | succ n induction =>
      have next : expanded block (16 + n) =
          permutation1 (expanded block (16 + n - 16) ^^^ expanded block (16 + n - 9) ^^^
            rotateLeft (expanded block (16 + n - 3)) 15) ^^^
            rotateLeft (expanded block (16 + n - 13)) 7 ^^^ expanded block (16 + n - 6) := by
        rw [expanded, if_neg (by omega)]
      rw [Function.iterate_succ_apply', induction, ← Nat.add_assoc, List.range_succ,
        List.map_append, extend, List.length_map, List.length_range]
      simp only [getD_range_map (expanded block) (show 16 + n - 16 < 16 + n by omega),
        getD_range_map (expanded block) (show 16 + n - 9 < 16 + n by omega),
        getD_range_map (expanded block) (show 16 + n - 3 < 16 + n by omega),
        getD_range_map (expanded block) (show 16 + n - 13 < 16 + n by omega),
        getD_range_map (expanded block) (show 16 + n - 6 < 16 + n by omega), p1_eq, left_rotate_eq]
      rw [List.map_cons, List.map_nil, next]
      rfl

theorem round_eq (block : List UInt8) (v : Digest) {j : Nat} (inside : j < 64) :
    round (schedule block) v j = standardRound block v j := by
  have word : (schedule block).getD j 0 = expanded block j := by
    rw [schedule, schedule_from, getD_range_map _ (by omega)]
  have later : (schedule block).getD (j + 4) 0 = expanded block (j + 4) := by
    rw [schedule, schedule_from, getD_range_map _ (by omega)]
  have amount : (UInt32.ofNat j).toNat = j := by
    rw [UInt32.toNat_ofNat']
    omega
  by_cases early : j < 16
  · have first : j ≤ 15 := by omega
    simp only [round, standardRound, constant, booleanFF, booleanGG, early, first, if_true, word,
      later, p0_eq, left_rotate_eq, amount, ff0, gg0]
    rfl
  · have second : ¬j ≤ 15 := by omega
    simp only [round, standardRound, constant, booleanFF, booleanGG, early, second, if_false, word,
      later, p0_eq, left_rotate_eq, amount, ff1, gg1]
    rfl

theorem compress_eq : compress = standardCompress := by
  funext v block
  have run : (List.range 64).foldl (round (schedule block)) v =
      (List.range 64).foldl (standardRound block) v := by
    apply List.foldl_ext
    intro regs j inside
    exact round_eq block regs (List.mem_range.mp inside)
  simp only [compress, standardCompress, run, UInt32.xor_comm]

theorem pad_of_waiting {sm3 : SM3} {data : List UInt8}
    (waiting : sm3.unhandleMsg = leftover blockSize data) :
    pad sm3 = leftover blockSize data ++
      ([0x80] ++ List.replicate (zeros data.length) 0 ++ toBytes 8 sm3.length.toNat) := by
  rw [pad, waiting, leftover_length]
  simp only [List.append_assoc]
  rfl

/-- After the whole blocks of `m` the object pads what is left as the specification
pads `m`. -/
theorem pad_written {m : List UInt8} (short : m.length < 2 ^ 61) :
    pad (write new m) = leftover blockSize m ++
      ([0x80] ++ List.replicate (zeros m.length) 0 ++ toBytes 8 (8 * m.length)) := by
  have waiting : (write new m).unhandleMsg = leftover blockSize m := rfl
  have bits : (write new m).length.toNat = 8 * m.length := by
    change ((0 : UInt64) + UInt64.ofNat (m.length * 8)).toNat = 8 * m.length
    rw [UInt64.zero_add, UInt64.toNat_ofNat']
    omega
  rw [pad_of_waiting waiting, bits]

theorem sm3_sum_eq {m : List UInt8} (short : m.length < 2 ^ 61) : sm3Sum m = standardHash m := by
  have absorbed : update (write new m).digest (pad (write new m)) =
      update new.digest (padded m) := by
    simp only [padded, List.append_assoc]
    rw [pad_written short]
    simp only [update, List.append_assoc]
    rw [absorb_whole_append blockSize compress (by decide) new.digest m]
    rfl
  rw [sm3Sum, sum, write_nil]
  simp only
  rw [absorbed, update, compress_eq, standardHash]
  rfl

def reset (_ : SM3) : SM3 := new

/-- However a message is cut into writes, the digest is that of the specification. -/
theorem chunked_hash (used : SM3) (m : List UInt8) (chunks : List (List UInt8))
    (split : chunks.flatten = m) (short : m.length < 2 ^ 61) :
    (sum (chunks.foldl write new) []).1 = sm3Sum m ∧
      (sum (chunks.foldl write (reset used)) []).1 = sm3Sum m ∧ sm3Sum m = standardHash m := by
  refine ⟨?_, ?_, sm3_sum_eq short⟩
  · rw [write_chunks, split, sm3Sum]
  · rw [reset, write_chunks, split, sm3Sum]

theorem chunked_hash_three :
    (sum ([[], [0x61, 0x62], [], [0x63]].foldl write new) []).1 = sm3Sum [0x61, 0x62, 0x63] ∧
      sm3Sum [0x61, 0x62, 0x63] = standardHash [0x61, 0x62, 0x63] :=
  have hashed := chunked_hash new [0x61, 0x62, 0x63] [[], [0x61, 0x62], [], [0x63]] rfl (by decide)
  ⟨hashed.1, hashed.2.2⟩

/-! ## The contract of `Sum` -/

section Contract

inductive Operation where
  | write (p : List UInt8)
  | sum (b : List UInt8)
  | reset
deriving DecidableEq

def outputs : SM3 → List Operation → List (List UInt8)
  | _, [] => []
  | sm3, .write p :: history => outputs (write sm3 p) history
  | sm3, .sum b :: history => (sum sm3 b).1 :: outputs (sum sm3 b).2 history
  | sm3, .reset :: history => outputs (reset sm3) history

/-- What `hash.Hash` says they return: the argument and the digest of all that was written, as if
there had been no `Sum` before. -/
def documented : List UInt8 → List Operation → List (List UInt8)
  | _, [] => []
  | data, .write p :: history => documented (data ++ p) history
  | data, .sum b :: history => (b ++ sm3Sum data) :: documented data history
  | _, .reset :: history => documented [] history

def Honoured (history : List Operation) : Prop := outputs new history = documented [] history

def padding (data : List UInt8) : List UInt8 :=
  [0x80] ++ List.replicate (zeros data.length) 0 ++
    toBytes 8 (UInt64.ofNat (data.length * 8)).toNat

/-- The data since `New` or the last `Reset`, and the bytes that the object has taken for it: a
`Sum` puts its padding among them, and then the bytes that were waiting once more. -/
structure Course where
  data : List UInt8
  fed : List UInt8
  summed : Bool

def Course.after (course : Course) : Operation → Course
  | .write p => { course with data := course.data ++ p, fed := course.fed ++ p }
  | .sum _ =>
      { course with
        fed := course.fed ++ padding course.data ++ leftover blockSize course.data
        summed := true }
  | .reset => ⟨[], [], false⟩

def courseOf (history : List Operation) : Course := history.foldl Course.after ⟨[], [], false⟩

/-- Two different strings that iterating the compression does not tell apart. -/
def Collision (left right : List UInt8) : Prop :=
  left ≠ right ∧ update new.digest left = update new.digest right

/-- The object after a history whose arguments of `Sum` are all empty. -/
structure Carries (sm3 : SM3) (course : Course) : Prop where
  digest : sm3.digest = update new.digest course.fed
  length : sm3.length = UInt64.ofNat (course.data.length * 8)
  waiting : sm3.unhandleMsg = leftover blockSize course.data
  aligned : leftover blockSize course.fed = leftover blockSize course.data
  first : course.summed = false → course.fed = course.data
  later : course.summed = true → course.data.length < course.fed.length

variable {sm3 : SM3} {course : Course}

theorem carries_new : Carries new ⟨[], [], false⟩ :=
  ⟨rfl, rfl, rfl, rfl, fun _ => rfl, fun wrong => by cases wrong⟩

theorem carries_write (carries : Carries sm3 course) (p : List UInt8) :
    Carries (write sm3 p) (course.after (.write p)) := by
  have positive : 0 < blockSize := by decide
  constructor
  · change update sm3.digest (sm3.unhandleMsg ++ p) = update new.digest (course.fed ++ p)
    rw [carries.digest, carries.waiting, ← carries.aligned]
    exact (absorb_whole_append blockSize compress positive _ _ _).symm
  · change sm3.length + UInt64.ofNat (p.length * 8) =
      UInt64.ofNat ((course.data ++ p).length * 8)
    rw [carries.length, List.length_append, Nat.add_mul, UInt64.ofNat_add]
  · change leftover blockSize (sm3.unhandleMsg ++ p) = leftover blockSize (course.data ++ p)
    rw [carries.waiting, ← leftover_append blockSize positive]
  · change leftover blockSize (course.fed ++ p) = leftover blockSize (course.data ++ p)
    rw [leftover_append blockSize positive, carries.aligned, ← leftover_append blockSize positive]
  · intro unsummed
    exact congrArg (· ++ p) (carries.first unsummed)
  · intro summed
    have longer := carries.later summed
    simp only [Course.after, List.length_append]
    omega

/-- The object pads as if it had only been written to. -/
theorem pad_carried (carries : Carries sm3 course) :
    pad sm3 = leftover blockSize course.data ++ padding course.data := by
  rw [pad_of_waiting carries.waiting, carries.length, padding]

theorem sum_digest (carries : Carries sm3 course) :
    update sm3.digest (pad sm3) = update new.digest (course.fed ++ padding course.data) := by
  rw [carries.digest, pad_carried carries, ← carries.aligned]
  exact (absorb_whole_append blockSize compress (by decide) _ _ _).symm

theorem fed_whole (carries : Carries sm3 course) :
    leftover blockSize (course.fed ++ padding course.data) = [] := by
  rw [leftover_append blockSize (by decide), carries.aligned, ← pad_carried carries]
  apply List.eq_nil_of_length_eq_zero
  rw [leftover_length, pad_length]

theorem carries_sum (carries : Carries sm3 course) :
    Carries (sum sm3 []).2 (course.after (.sum [])) := by
  have positive : 0 < blockSize := by decide
  have whole := fed_whole carries
  have short : (leftover blockSize course.data).length < blockSize :=
    leftover_short blockSize positive _
  rw [sum, write_nil]
  constructor
  · change update sm3.digest (pad sm3) = update new.digest
      (course.fed ++ padding course.data ++ leftover blockSize course.data)
    rw [sum_digest carries, update, update, absorb_whole_append blockSize compress positive _
      (course.fed ++ padding course.data), whole, List.nil_append,
      absorb_whole_of_short blockSize compress _ short]
  · exact carries.length
  · exact carries.waiting
  · change leftover blockSize (course.fed ++ padding course.data ++
      leftover blockSize course.data) = leftover blockSize course.data
    rw [leftover_append blockSize positive, whole, List.nil_append,
      leftover_of_short blockSize short]
  · intro wrong
    cases wrong
  · intro _
    have least : course.data.length ≤ course.fed.length := by
      cases summed : course.summed with
      | false => rw [carries.first summed]
      | true => exact Nat.le_of_lt (carries.later summed)
    simp only [Course.after, padding, List.length_append, List.length_singleton]
    omega

theorem word_bytes_injective {x y : UInt32} (same : toBytes 4 x.toNat = toBytes 4 y.toNat) :
    x = y := by
  have values := congrArg ofBytes same
  rw [of_bytes_to_bytes x.toNat_lt, of_bytes_to_bytes y.toNat_lt] at values
  exact UInt32.toNat_inj.mp values

theorem digest_bytes_injective : Function.Injective digestBytes := by
  intro left right same
  have sizes (x y : UInt32) : (toBytes 4 x.toNat).length = (toBytes 4 y.toNat).length := by
    rw [to_bytes_length, to_bytes_length]
  obtain ⟨same, h⟩ := List.append_inj' same (sizes _ _)
  obtain ⟨same, g⟩ := List.append_inj' same (sizes _ _)
  obtain ⟨same, f⟩ := List.append_inj' same (sizes _ _)
  obtain ⟨same, e⟩ := List.append_inj' same (sizes _ _)
  obtain ⟨same, d⟩ := List.append_inj' same (sizes _ _)
  obtain ⟨same, c⟩ := List.append_inj' same (sizes _ _)
  obtain ⟨a, b⟩ := List.append_inj' same (sizes _ _)
  obtain ⟨_, _, _, _, _, _, _, _⟩ := left
  rw [Digest.mk.injEq]
  exact ⟨word_bytes_injective a, word_bytes_injective b, word_bytes_injective c,
    word_bytes_injective d, word_bytes_injective e, word_bytes_injective f,
    word_bytes_injective g, word_bytes_injective h⟩

theorem sum_carried (carries : Carries sm3 course) :
    (sum sm3 []).1 = digestBytes (update new.digest (course.fed ++ padding course.data)) := by
  rw [sum, write_nil]
  exact congrArg digestBytes (sum_digest carries)

def Right (course : Course) (b : List UInt8) : Prop :=
  b = [] ∧ (course.summed = false ∨
    Collision (course.fed ++ padding course.data) (course.data ++ padding course.data))

theorem sum_right_iff (carries : Carries sm3 course) (b : List UInt8) :
    (sum sm3 b).1 = b ++ sm3Sum course.data ↔ Right course b := by
  have plain := sum_carried (carries_write carries_new course.data)
  rw [← sm3Sum, Course.after, List.nil_append] at plain
  constructor
  · intro same
    -- 32 bytes come back, whatever the argument is
    have sizes := congrArg List.length same
    rw [List.length_append, sm3Sum, sum_length, sum_length] at sizes
    have bare : b = [] := List.eq_nil_of_length_eq_zero (by omega)
    subst bare
    refine ⟨rfl, ?_⟩
    cases summed : course.summed with
    | false => exact .inl rfl
    | true =>
        rw [sum_carried carries, plain] at same
        refine .inr ⟨fun equal => ?_, digest_bytes_injective same⟩
        have longer := carries.later summed
        rw [List.append_cancel_right equal] at longer
        exact Nat.lt_irrefl _ longer
  · rintro ⟨rfl, fresh⟩
    rw [sum_carried carries, List.nil_append, plain]
    rcases fresh with unsummed | ⟨_, same⟩
    · rw [carries.first unsummed]
    · rw [same]

/-- A property of the calls of `Sum`, each with the course before it. -/
def EachSum (holds : Course → List UInt8 → Prop) (course : Course) (history : List Operation) :
    Prop :=
  ∀ before b later, history = before ++ .sum b :: later →
    holds (before.foldl Course.after course) b

theorem each_sum_cons {holds : Course → List UInt8 → Prop} {operation : Operation}
    {history : List Operation} :
    EachSum holds course (operation :: history) ↔
      (∀ b, operation = .sum b → holds course b) ∧
        EachSum holds (course.after operation) history := by
  constructor
  · intro each
    refine ⟨fun b same => each [] b history (by rw [same]; rfl), fun before b later split => ?_⟩
    exact each (operation :: before) b later (by rw [split]; rfl)
  · rintro ⟨now, rest⟩ before b later split
    cases before with
    | nil => exact now b (List.cons.inj split).1
    | cons first before =>
        obtain ⟨rfl, tail⟩ := List.cons.inj split
        exact rest before b later tail

/-- Along a history the results are those documented as long as each call of `Sum` is right: then
the object still carries the course. -/
theorem outputs_documented_iff (history : List Operation) (carries : Carries sm3 course) :
    outputs sm3 history = documented course.data history ↔ EachSum Right course history := by
  induction history generalizing sm3 course with
  | nil => exact iff_of_true rfl fun before b later split => by simp at split
  | cons operation history induction =>
      rw [each_sum_cons]
      cases operation with
      | write p =>
          refine (induction (carries_write carries p)).trans (iff_and_self.mpr fun _ b wrong => ?_)
          cases wrong
      | reset =>
          refine (induction carries_new).trans (iff_and_self.mpr fun _ b wrong => ?_)
          cases wrong
      | sum b =>
          rw [outputs, documented, List.cons.injEq, sum_right_iff carries]
          constructor
          · rintro ⟨right, rest⟩
            obtain rfl := right.1
            refine ⟨fun other same => ?_, (induction (carries_sum carries)).mp rest⟩
            cases same
            exact right
          · rintro ⟨right, rest⟩
            have now := right b rfl
            obtain rfl := now.1
            exact ⟨now, (induction (carries_sum carries)).mpr rest⟩

/-- A history returns what `hash.Hash` documents exactly if every `Sum` in it has an empty argument
and is the first since `New` or the last `Reset`. A later one is right only where two different
strings collide. -/
theorem sums_honoured_iff (history : List Operation) :
    Honoured history ↔ ∀ before b later, history = before ++ .sum b :: later →
      b = [] ∧ ((courseOf before).summed = false ∨
        Collision ((courseOf before).fed ++ padding (courseOf before).data)
          ((courseOf before).data ++ padding (courseOf before).data)) :=
  outputs_documented_iff history carries_new

/-- A second `Sum` of an empty hash gives another digest, and a byte that the digest should follow
is lost. -/
theorem sums_not_honoured : ¬Honoured [.sum [], .sum []] ∧ ¬Honoured [.sum [0]] := by
  have second : (sum (sum new []).2 []).1 ≠ (sum new []).1 := by decide +kernel
  constructor
  · intro honoured
    obtain ⟨first, rest⟩ := List.cons.inj honoured
    exact second ((List.cons.inj rest).1.trans first.symm)
  · intro honoured
    have sizes := congrArg List.length (List.cons.inj honoured).1
    rw [List.length_append, sm3Sum, sum_length, sum_length] at sizes
    cases sizes

end Contract

end PbftBlock.Sm3
