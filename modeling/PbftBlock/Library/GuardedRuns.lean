import Mathlib.Data.List.Basic
import Mathlib.Tactic.SplitIfs

/-!
# Chains of actions and runs of a guarded step function

A call of a handler is a chain of small actions. Each action moves the state
and emits a list of outputs; the chain collects the outputs in order. An
invariant of the actions may read the outputs emitted so far.

A run applies a partial step function to one event after another, each event
allowed by a guard on the state in which it happens. Every safety statement
below this module is an invariant of such runs, and every concrete schedule is
a replay that checks the guard as it goes.
-/

namespace PbftBlock.Library.GuardedRuns

set_option autoImplicit false

/-! ## Chains -/

section Chains

variable {State Output : Type*}

inductive Chain (act : State → List Output → State → Prop) (first : State) :
    List Output → State → Prop where
  | start : Chain act first [] first
  | next {outputs more : List Output} {state after : State}
      (prior : Chain act first outputs state) (action : act state more after) :
      Chain act first (outputs ++ more) after

variable {act : State → List Output → State → Prop} {first last : State}
  {outputs : List Output}

theorem chain_next_silent {state after : State} (prior : Chain act first outputs state)
    (action : act state [] after) : Chain act first outputs after := by
  simpa using Chain.next prior action

/-- The outputs of a chain all satisfy a test when it holds of the chain as a
whole; the induction hands each action the test on its own outputs. -/
theorem chain_invariant (Emitted : Output → Prop) (Invariant : List Output → State → Prop)
    (initial : Invariant [] first)
    (preserved : ∀ emitted state more after, act state more after →
      (∀ output ∈ more, Emitted output) → Invariant emitted state →
      Invariant (emitted ++ more) after)
    (chain : Chain act first outputs last) (all : ∀ output ∈ outputs, Emitted output) :
    Invariant outputs last := by
  induction chain with
  | start => exact initial
  | next prior action ih =>
      have earlier := ih fun output member => all output (List.mem_append_left _ member)
      exact preserved _ _ _ _ action
        (fun output member => all output (List.mem_append_right _ member)) earlier

theorem chain_state_invariant (Invariant : State → Prop) (initial : Invariant first)
    (preserved : ∀ state more after, act state more after → Invariant state → Invariant after)
    (chain : Chain act first outputs last) : Invariant last :=
  chain_invariant (fun _ => True) (fun _ state => Invariant state) initial
    (fun _ _ _ _ action _ prior => preserved _ _ _ action prior) chain (by simp)

/-- Every output of a chain is emitted by one of its actions, in a state the
invariant holds of. -/
theorem chain_output (Invariant : State → Prop) (initial : Invariant first)
    (preserved : ∀ state more after, act state more after → Invariant state → Invariant after)
    (chain : Chain act first outputs last) (output : Output) (member : output ∈ outputs) :
    ∃ state more after, Invariant state ∧ act state more after ∧ output ∈ more ∧
      ∀ other ∈ more, other ∈ outputs := by
  induction chain with
  | start => simp at member
  | next prior action ih =>
      rcases List.mem_append.mp member with early | late
      · obtain ⟨state, more, after, held, acted, inside, all⟩ := ih early
        exact ⟨state, more, after, held, acted, inside,
          fun other otherMember => List.mem_append_left _ (all other otherMember)⟩
      · exact ⟨_, _, _, chain_state_invariant Invariant initial preserved prior, action, late,
          fun other otherMember => List.mem_append_right _ otherMember⟩

end Chains

/-! ## Runs -/

section Runs

variable {State Event : Type*}

/-- `Run step allowed first events last`: the events lead from `first` to
`last`, the most recent event at the end of the list. -/
inductive Run (step : State → Event → Option State) (allowed : State → Event → Prop)
    (first : State) : List Event → State → Prop where
  | start : Run step allowed first [] first
  | next {events : List Event} {state after : State} (event : Event)
      (prior : Run step allowed first events state)
      (guard : allowed state event)
      (stepped : step state event = some after) :
      Run step allowed first (events ++ [event]) after

variable {step : State → Event → Option State} {allowed : State → Event → Prop}

theorem run_invariant (Invariant : State → Prop)
    (preserved : ∀ state event after, allowed state event →
      step state event = some after → Invariant state → Invariant after)
    {first last : State} {events : List Event}
    (run : Run step allowed first events last) (initial : Invariant first) :
    Invariant last := by
  induction run with
  | start => exact initial
  | next event prior guard stepped ih => exact preserved _ event _ guard stepped ih

theorem run_weaken {weaker : State → Event → Prop}
    (weaken : ∀ state event, allowed state event → weaker state event)
    {first last : State} {events : List Event}
    (run : Run step allowed first events last) : Run step weaker first events last := by
  induction run with
  | start => exact .start
  | next event prior guard stepped ih => exact .next event ih (weaken _ _ guard) stepped

/-- Replays a schedule, refusing an event whose guard fails. -/
def replay (step : State → Event → Option State) (guard : State → Event → Bool) :
    State → List Event → Option State
  | state, [] => some state
  | state, event :: rest =>
      if guard state event then (step state event).bind fun after => replay step guard after rest
      else none

theorem run_append {first middle last : State} {early late : List Event}
    (prefixRun : Run step allowed first early middle)
    (suffixRun : Run step allowed middle late last) :
    Run step allowed first (early ++ late) last := by
  induction suffixRun with
  | start => simpa using prefixRun
  | next event prior guard stepped ih =>
      rw [← List.append_assoc]
      exact .next event ih guard stepped

theorem run_of_replay {guard : State → Event → Bool}
    (sound : ∀ state event, guard state event = true → allowed state event)
    {first last : State} {events : List Event}
    (replayed : replay step guard first events = some last) :
    Run step allowed first events last := by
  induction events generalizing first with
  | nil =>
      obtain rfl : first = last := by simpa [replay] using replayed
      exact .start
  | cons event rest ih =>
      unfold replay at replayed
      split_ifs at replayed with passed
      obtain ⟨after, stepped, remaining⟩ := Option.bind_eq_some_iff.mp replayed
      have head : Run step allowed first ([] ++ [event]) after :=
        .next event .start (sound _ _ passed) stepped
      exact run_append head (ih remaining)

/-- A replay that ends in a state passing a test is a run to such a state. -/
theorem run_reaching (guard : State → Event → Bool) (test : State → Bool)
    (sound : ∀ state event, guard state event = true → allowed state event)
    {first : State} {events : List Event}
    (passed : (replay step guard first events).any test = true) :
    ∃ last, Run step allowed first events last ∧ test last = true := by
  cases replayed : replay step guard first events with
  | none =>
      rw [replayed] at passed
      cases passed
  | some last =>
      rw [replayed] at passed
      exact ⟨last, run_of_replay sound replayed, passed⟩

/-- The events a scheduler picks one after another, until it has none or the
step refuses one. -/
def drive (step : State → Event → Option State) (choose : State → Option Event) :
    Nat → State → List Event
  | 0, _ => []
  | fuel + 1, state =>
      match choose state with
      | none => []
      | some event =>
          match step state event with
          | none => []
          | some after => event :: drive step choose fuel after

end Runs

end PbftBlock.Library.GuardedRuns
