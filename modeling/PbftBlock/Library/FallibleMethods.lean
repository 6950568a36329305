import Mathlib.Data.List.Induction

/-!
# Methods and loops that fail

A Go method that returns an error has changed its receiver up to that point. Here
such a method is a function of the state whose result carries the state both ways,
so that what a failed call has consumed stays visible. In a loop whose steps return an
error or go on, an invariant that every step keeps without failing holds at the end.
-/

namespace PbftBlock.Library.FallibleMethods

set_option autoImplicit false

/-! ## Methods -/

section Methods

abbrev Fallible (Error State Value : Type) := State → EStateM.Result Error State Value

variable {Error State Value Result : Type}

/-- The second method runs on what the first has left, unless that failed. -/
def andThen (first : Fallible Error State Value) (next : Value → Fallible Error State Result) :
    Fallible Error State Result := fun state =>
  match first state with
  | .error err state => .error err state
  | .ok value state => next value state

def mapError (change : Error → Error) (method : Fallible Error State Value) :
    Fallible Error State Value := fun state =>
  match method state with
  | .error err state => .error (change err) state
  | .ok value state => .ok value state

def stateOf : EStateM.Result Error State Value → State
  | .error _ state => state
  | .ok _ state => state

/-- The method never changes this part of the state. -/
def Keeps {View : Type} (view : State → View) (method : Fallible Error State Value) : Prop :=
  ∀ state, view (stateOf (method state)) = view state

section Rules

variable {first : Fallible Error State Value} {next : Value → Fallible Error State Result}
  {before after : State} {value : Value}

theorem and_then_ok (ran : first before = .ok value after) :
    andThen first next before = next value after := by
  rw [andThen, ran]

theorem and_then_error {err : Error} (ran : first before = .error err after) :
    andThen first next before = .error err after := by
  rw [andThen, ran]

theorem and_then_inv {result : Result} {final : State}
    (ran : andThen first next before = .ok result final) :
    ∃ value after, first before = .ok value after ∧ next value after = .ok result final := by
  unfold andThen at ran
  cases head : first before with
  | error err after =>
      rw [head] at ran
      cases ran
  | ok value after =>
      rw [head] at ran
      exact ⟨value, after, rfl, ran⟩

theorem map_error_ok {change : Error → Error} (ran : first before = .ok value after) :
    mapError change first before = .ok value after := by
  rw [mapError, ran]

theorem map_error_error {change : Error → Error} {err : Error}
    (ran : first before = .error err after) :
    mapError change first before = .error (change err) after := by
  rw [mapError, ran]

theorem map_error_inv {change : Error → Error} (ran : mapError change first before = .ok value after) :
    first before = .ok value after := by
  unfold mapError at ran
  cases head : first before with
  | error err middle =>
      rw [head] at ran
      cases ran
  | ok result middle =>
      rw [head] at ran
      exact ran

theorem keeps_and_then {View : Type} {view : State → View} (head : Keeps view first)
    (tail : ∀ value, Keeps view (next value)) : Keeps view (andThen first next) := by
  intro state
  have kept := head state
  unfold andThen
  cases ran : first state with
  | error err after =>
      rw [ran] at kept
      exact kept
  | ok value after =>
      rw [ran] at kept
      exact (tail value after).trans kept

end Rules

end Methods

/-! ## Reading -/

section Reading

variable {Error State Byte : Type} {input : State → List Byte}
  {setInput : List Byte → State → State} {empty short : Error}

/-- Takes so many bytes of the input that a state holds; an input with fewer is used up. -/
def takeFull (input : State → List Byte) (setInput : List Byte → State → State)
    (empty short : Error) (n : Nat) : Fallible Error State (List Byte) := fun state =>
  if (input state).length < n then
    .error (if (input state).isEmpty then empty else short) (setInput [] state)
  else .ok ((input state).take n) (setInput ((input state).drop n) state)

theorem take_full_ok {state : State} {taken rest : List Byte} {n : Nat}
    (arrived : input state = taken ++ rest) (length : taken.length = n) :
    takeFull input setInput empty short n state = .ok taken (setInput rest state) := by
  have enough : ¬(input state).length < n := by
    rw [arrived, List.length_append]
    omega
  rw [takeFull, if_neg enough, arrived, List.take_left' length, List.drop_left' length]

theorem take_full_keeps {View : Type} {view : State → View}
    (apart : ∀ rest state, view (setInput rest state) = view state) (n : Nat) :
    Keeps view (takeFull input setInput empty short n) := by
  intro state
  by_cases fewer : (input state).length < n
  · rw [takeFull, if_pos fewer]
    exact apart _ state
  · rw [takeFull, if_neg fewer]
    exact apart _ state

end Reading

/-! ## Loops -/

section Loops

variable {Error α β : Type}

theorem range_loop_ok {step : α → Nat → Except Error α} {start : α} (n : Nat)
    (Inv : Nat → α → Prop) (initial : Inv 0 start)
    (next : ∀ m < n, ∀ acc, Inv m acc → ∃ acc', step acc m = .ok acc' ∧ Inv (m + 1) acc') :
    ∃ acc, (List.range n).foldlM step start = .ok acc ∧ Inv n acc := by
  induction n with
  | zero => exact ⟨start, rfl, initial⟩
  | succ n induction =>
      obtain ⟨acc, ran, inv⟩ := induction fun m less => next m (by omega)
      obtain ⟨acc', last, inv'⟩ := next n (Nat.lt_succ_self n) acc inv
      refine ⟨acc', ?_, inv'⟩
      rw [List.range_succ, List.foldlM_append, ran]
      change (step acc n >>= pure) = _
      rw [last]
      rfl

theorem map_loop_ok {step : α → Except Error β} {value : α → β} (elements : List α)
    (each : ∀ a ∈ elements, step a = .ok (value a)) :
    elements.mapM step = .ok (elements.map value) := by
  induction elements with
  | nil => rfl
  | cons a elements induction =>
      rw [List.mapM_cons, each a List.mem_cons_self,
        induction fun b member => each b (List.mem_cons_of_mem a member)]
      rfl

end Loops

end PbftBlock.Library.FallibleMethods
