import PbftBlock.RlpAcceptance

/-!
# The end of an RLP list

The error `EOL` ends the loop over the elements of a slice. It must not come out of
the middle of an element: a decoder reports it only before it has taken anything.
-/

namespace PbftBlock.RlpListEnds

open PbftBlock.Library.FallibleMethods PbftBlock.RlpTypes PbftBlock.RlpStream PbftBlock.RlpDecoders
open PbftBlock.RlpAcceptance

set_option autoImplicit false

variable {α β : Type}

/-- The method never reports the end of the list. -/
def NoEol (method : StreamM α) : Prop := ∀ s s', method s ≠ .error .eol s'

/-- The method reports the end of the list only before it has taken anything. -/
def EolFirst (method : StreamM α) : Prop :=
  ∀ s s', (s.kind = none ∨ Stale s) → method s = .error .eol s' → Ate s [] s' ∧ s.kind = none

theorem no_eol_ok {value : α} : NoEol (fun s => .ok value s) := by
  intro s s' ran
  cases ran

theorem no_eol_and_then {first : StreamM α} {next : α → StreamM β} (head : NoEol first)
    (tail : ∀ value, NoEol (next value)) : NoEol (andThen first next) := by
  intro s s' ran
  unfold andThen at ran
  cases ran' : first s with
  | error err t =>
      rw [ran'] at ran
      cases ran
      exact head s s' ran'
  | ok value t =>
      rw [ran'] at ran
      exact tail value t s' ran

theorem no_eol_map_error {method : StreamM α} {change : RlpError → RlpError}
    (other : ∀ err, err ≠ .eol → change err ≠ .eol) (inner : NoEol method) :
    NoEol (mapError change method) := by
  intro s s' ran
  unfold mapError at ran
  cases ran' : method s with
  | error err t =>
      rw [ran'] at ran
      injection ran with same
      refine other err ?_ same
      rintro rfl
      exact inner s t ran'
  | ok value t =>
      rw [ran'] at ran
      cases ran

theorem eol_first_and_then {first : StreamM α} {next : α → StreamM β} (head : EolFirst first)
    (tail : ∀ value, NoEol (next value)) : EolFirst (andThen first next) := by
  intro s s' start ran
  unfold andThen at ran
  cases ran' : first s with
  | error err t =>
      rw [ran'] at ran
      cases ran
      exact head s s' start ran'
  | ok value t =>
      rw [ran'] at ran
      exact absurd ran (tail value t s')

theorem eol_first_map_error {method : StreamM α} {change : RlpError → RlpError}
    (other : ∀ err, err ≠ .eol → change err ≠ .eol) (inner : EolFirst method) :
    EolFirst (mapError change method) := by
  intro s s' start ran
  unfold mapError at ran
  cases ran' : method s with
  | error err t =>
      rw [ran'] at ran
      injection ran with same rest
      subst rest
      apply inner s t start
      rw [ran']
      by_contra different
      exact other err (fun eol => different (by rw [eol])) same
  | ok value t =>
      rw [ran'] at ran
      cases ran

theorem wrap_not_eol (typ : String) (err : RlpError) (other : err ≠ .eol) :
    wrapStreamError err typ ≠ .eol := by
  cases err <;> simp_all [wrapStreamError]

theorem context_not_eol (ctx : String) (err : RlpError) (other : err ≠ .eol) :
    addErrorContext err ctx ≠ .eol := by
  cases err <;> simp_all [addErrorContext]

theorem no_eol_will_read (n : Nat) : NoEol (willRead n) := by
  intro s s' ran
  unfold willRead at ran
  dsimp only at ran
  split_ifs at ran <;> cases ran

theorem no_eol_read_full (n : Nat) : NoEol (readFull n) := by
  intro s s' ran
  unfold readFull at ran
  cases charged : willRead n s with
  | error err t =>
      rw [charged] at ran
      cases ran
      exact no_eol_will_read n s s' charged
  | ok value t =>
      rw [charged] at ran
      dsimp only at ran
      split_ifs at ran
      cases ran

theorem no_eol_read_byte : NoEol readByte := by
  intro s s' ran
  unfold readByte at ran
  cases charged : willRead 1 s with
  | error err t =>
      rw [charged] at ran
      cases ran
      exact no_eol_will_read 1 s s' charged
  | ok value t =>
      rw [charged] at ran
      dsimp only at ran
      cases input : t.r with
      | nil =>
          rw [input] at ran
          cases ran
      | cons first rest =>
          rw [input] at ran
          cases ran

theorem no_eol_read_uint (size : Nat) : NoEol (readUint size) := by
  intro s s' ran
  by_cases none : size = 0
  · subst none
    cases ran
  by_cases single : size = 1
  · subst single
    unfold readUint at ran
    cases byte : readByte s with
    | error err t =>
        rw [byte] at ran
        cases ran
        exact no_eol_read_byte s s' byte
    | ok b t =>
        rw [byte] at ran
        cases ran
  · rw [readUint] at ran
    · cases full : readFull size s with
      | error err t =>
          rw [full] at ran
          cases ran
          exact no_eol_read_full size s s' full
      | ok bytes t =>
          rw [full] at ran
          dsimp only at ran
          split_ifs at ran
          cases ran
    · exact none
    · exact single

theorem no_eol_read_integer (size : Nat) : NoEol (readInteger size) := by
  intro s s' ran
  unfold readInteger at ran
  cases read : readUint size s with
  | error err t =>
      rw [read] at ran
      dsimp only at ran
      split_ifs at ran
      · cases ran
      · cases ran
        exact no_eol_read_uint size s s' read
  | ok value t =>
      rw [read] at ran
      dsimp only at ran
      split_ifs at ran
      cases ran

theorem read_size_not_eol {kind : Kind} {width : Nat} {s : Stream} :
    (readSize kind width s).1.2.2 ≠ some .eol := by
  unfold readSize
  cases read : readUint width s with
  | error err t =>
      intro eol
      cases eol
      exact no_eol_read_uint width s t read
  | ok size t =>
      dsimp only
      split_ifs <;> simp

theorem read_kind_not_eol (s : Stream) : (readKind s).1.2.2 ≠ some .eol := by
  unfold readKind
  cases first : readByte s with
  | error err t =>
      dsimp only
      rw [atToplevel]
      split_ifs
      · simp
      · intro eol
        cases eol
        exact no_eol_read_byte s t first
  | ok b t =>
      dsimp only
      split_ifs
      · simp
      · simp
      · exact read_size_not_eol
      · simp
      · exact read_size_not_eol

theorem size_error_not_eol (s : Stream) (size : Nat) : sizeError s size ≠ some .eol := by
  unfold sizeError
  split_ifs <;> simp

theorem eol_first_next_kind : EolFirst Stream.nextKind := by
  intro s s' start ran
  rcases start with armed | stale
  · rw [Stream.nextKind, if_neg (by simp [armed])] at ran
    dsimp only at ran
    split_ifs at ran with ended
    · cases ran
      exact ⟨ate_nothing rfl rfl, armed⟩
    · have header := read_kind_not_eol { s with kinderr := none }
      have fits := size_error_not_eol (readKind { s with kinderr := none }).2
        (readKind { s with kinderr := none }).1.2.1
      have sticky := cached_kind_error ran
      rcases Option.or_eq_some_iff.mp sticky with found | ⟨_, found⟩
      · exact absurd found header
      · exact absurd found fits
  · rw [next_kind_stale stale] at ran
    cases ran

theorem no_eol_list_end : NoEol Stream.listEnd := by
  intro s s' ran
  unfold Stream.listEnd at ran
  cases stack : s.stack with
  | nil =>
      rw [stack] at ran
      cases ran
  | cons tos outer =>
      rw [stack] at ran
      dsimp only at ran
      split_ifs at ran
      cases ran

/-- The loop over a slice takes the end of the list for its own end. -/
theorem no_eol_slice_elems (elem : StreamM α) (fuel i : Nat) :
    NoEol (decodeSliceElems elem fuel i) := by
  induction fuel generalizing i with
  | zero =>
      intro s s' ran
      cases ran
  | succ fuel induction =>
      intro s s' ran
      cases read : elem s with
      | error err t =>
          by_cases eol : err = .eol
          · subst eol
            rw [slice_elems_end read] at ran
            cases ran
          · rw [slice_elems_error eol read] at ran
            injection ran with same
            exact context_not_eol _ err eol same
      | ok value t =>
          rw [slice_elems_next read] at ran
          exact no_eol_and_then (induction (i + 1)) (fun _ => no_eol_ok) t s' ran

/-- A field that is missing is an error of the struct. -/
theorem no_eol_field (typ name : String) (field : StreamM α) :
    NoEol (decodeField typ name field) := by
  intro s s' ran
  unfold decodeField mapError at ran
  cases read : field s with
  | error err t =>
      rw [read] at ran
      dsimp only at ran
      split_ifs at ran with eol
      · cases ran
      · injection ran with same
        exact context_not_eol _ err eol same
  | ok value t =>
      rw [read] at ran
      cases ran

theorem no_eol_fields (fuel : Nat) (typ : String) (fields : Fields) :
    NoEol (decodeFields fuel typ fields) := by
  induction fields using fields_induction with
  | done => exact no_eol_ok
  | tail name elem =>
      by_cases byte : elem = .uint .w8
      · subst byte
        exact no_eol_field typ name _
      · rw [decoder_tail byte]
        exact no_eol_field typ name _
  | field name ty rest induction =>
      apply no_eol_and_then (no_eol_field typ name _)
      intro v
      apply no_eol_and_then induction
      intro vs
      exact no_eol_ok

theorem eol_first_uint (bits : Nat) : EolFirst (Stream.uint bits) := by
  apply eol_first_and_then eol_first_next_kind
  rintro ⟨kind, size⟩
  cases kind with
  | byte =>
      intro s s' ran
      dsimp only at ran
      split_ifs at ran
      cases ran
  | string =>
      dsimp only
      split_ifs
      · intro s s' ran
        cases ran
      · exact no_eol_read_integer size
  | list =>
      intro s s' ran
      cases ran

theorem eol_first_bytes : EolFirst Stream.bytes := by
  apply eol_first_and_then eol_first_next_kind
  rintro ⟨kind, size⟩
  cases kind with
  | byte =>
      intro s s' ran
      cases ran
  | string =>
      apply no_eol_and_then (no_eol_read_full size)
      intro b s s' ran
      split_ifs at ran
      cases ran
  | list =>
      intro s s' ran
      cases ran

theorem eol_first_list : EolFirst Stream.list := by
  apply eol_first_and_then eol_first_next_kind
  rintro ⟨kind, size⟩ s s' ran
  dsimp only at ran
  split_ifs at ran
  · cases ran

theorem eol_first_byte_array (n : Nat) (typ : String) : EolFirst (decodeByteArray n typ) := by
  apply eol_first_and_then eol_first_next_kind
  rintro ⟨kind, size⟩
  cases kind with
  | byte =>
      intro s s' ran
      dsimp only at ran
      split_ifs at ran
      · cases ran
      · cases ran
      · dsimp only at ran
        cases value : Stream.uint 64 s with
        | error err t =>
            rw [value] at ran
            cases ran
        | ok v t =>
            rw [value] at ran
            cases ran
  | string =>
      dsimp only
      split_ifs
      · intro s s' ran
        cases ran
      · intro s s' ran
        cases ran
      · apply no_eol_and_then (no_eol_read_full n)
        intro b s s' ran
        split_ifs at ran
        cases ran
  | list =>
      intro s s' ran
      cases ran

/-- A decoder reports the end of the list only before it has taken anything. -/
theorem eol_first_decoder (fuel : Nat) (ty : Ty) : EolFirst (makeDecoder fuel ty) := by
  cases ty with
  | uint width =>
      apply eol_first_and_then
      · exact eol_first_map_error (wrap_not_eol _) (eol_first_uint width.bits)
      · intro num
        exact no_eol_ok
  | bool =>
      apply eol_first_map_error (wrap_not_eol _)
      apply eol_first_and_then (eol_first_uint 8)
      intro num s s' ran
      rcases num with _ | _ | num <;> cases ran
  | string => exact eol_first_map_error (wrap_not_eol _) eol_first_bytes
  | bigInt =>
      apply eol_first_and_then
      · exact eol_first_map_error (wrap_not_eol _) eol_first_bytes
      · intro b s s' ran
        split_ifs at ran
        cases ran
  | byteArray n =>
      apply eol_first_and_then (eol_first_byte_array n _)
      intro b
      exact no_eol_ok
  | slice elem =>
      by_cases byte : elem = .uint .w8
      · subst byte
        exact eol_first_map_error (wrap_not_eol _) eol_first_bytes
      · rw [decoder_slice byte]
        apply eol_first_and_then
        · exact eol_first_map_error (wrap_not_eol _) eol_first_list
        · intro size
          split_ifs
          · exact no_eol_and_then no_eol_list_end fun _ => no_eol_ok
          · apply no_eol_and_then (no_eol_slice_elems _ fuel 0)
            intro values
            exact no_eol_and_then no_eol_list_end fun _ => no_eol_ok
  | struct name fields =>
      apply eol_first_and_then
      · exact eol_first_map_error (wrap_not_eol _) eol_first_list
      · intro size
        apply no_eol_and_then (no_eol_fields fuel name fields)
        · intro value
          apply no_eol_and_then (no_eol_map_error (wrap_not_eol _) no_eol_list_end)
          intro _
          exact no_eol_ok

end PbftBlock.RlpListEnds
