import PbftBlock.Library.GuardedRuns

/-!
# Threads that talk over channels

A buffered channel holds no more values than its buffer has places. The events of a system of
threads are given by when they can happen and by what they do; a send to a full channel and a
receive from an empty one cannot happen.
-/

namespace PbftBlock.Library.Channels

open PbftBlock.Library.GuardedRuns

set_option autoImplicit false

section Buffers

variable {α : Type*} {capacity : Nat}

structure Buffer (α : Type*) (capacity : Nat) where
  items : List α
  bounded : items.length ≤ capacity

def Buffer.empty : Buffer α capacity := ⟨[], Nat.zero_le _⟩

def Buffer.Room (b : Buffer α capacity) : Prop := b.items.length < capacity

instance (b : Buffer α capacity) : Decidable b.Room := Nat.decLt _ _

def Buffer.put (b : Buffer α capacity) (a : α) : Buffer α capacity :=
  if room : b.Room then ⟨b.items ++ [a], by rw [List.length_append]; exact room⟩ else b

def Buffer.rest (b : Buffer α capacity) : Buffer α capacity :=
  ⟨b.items.tail, by rw [List.length_tail]; exact Nat.le_trans (Nat.sub_le _ _) b.bounded⟩

@[simp]
theorem empty_items : (Buffer.empty : Buffer α capacity).items = [] := rfl

@[simp]
theorem rest_items (b : Buffer α capacity) : b.rest.items = b.items.tail := rfl

theorem put_items {b : Buffer α capacity} (room : b.Room) (a : α) :
    (b.put a).items = b.items ++ [a] := by
  rw [Buffer.put, dif_pos room]

end Buffers

section Threads

variable {State Event : Type*} {enabled : State → Event → Prop}
  [∀ s event, Decidable (enabled s event)] {next : State → Event → State}
  {allowed : State → Event → Prop}

/-- The step function of events that can happen only at times. -/
def guarded (enabled : State → Event → Prop) [∀ s event, Decidable (enabled s event)]
    (next : State → Event → State) (s : State) (event : Event) : Option State :=
  if enabled s event then some (next s event) else none

theorem guarded_iff {s after : State} {event : Event} :
    guarded enabled next s event = some after ↔ enabled s event ∧ next s event = after := by
  rw [guarded]
  split_ifs with can
  · exact ⟨fun same => ⟨can, Option.some.inj same⟩, fun both => congrArg some both.2⟩
  · exact ⟨fun wrong => (by cases wrong), fun both => absurd both.1 can⟩

theorem guarded_invariant (Invariant : State → Prop)
    (preserved : ∀ s event, allowed s event → enabled s event → Invariant s →
      Invariant (next s event))
    {first last : State} {events : List Event}
    (run : Run (guarded enabled next) allowed first events last) (initial : Invariant first) :
    Invariant last := by
  refine run_invariant Invariant (fun s event after guard stepped held => ?_) run initial
  obtain ⟨can, rfl⟩ := guarded_iff.mp stepped
  exact preserved s event guard can held

/-- If short of the goal some event can always happen that brings the system closer to it, the
goal can be reached. -/
theorem run_to_goal (Invariant Goal : State → Prop) (measure : State → Nat)
    (progress : ∀ s, Invariant s → ¬Goal s → ∃ event, allowed s event ∧ enabled s event ∧
      Invariant (next s event) ∧ measure (next s event) < measure s)
    {s : State} (held : Invariant s) :
    ∃ events last, Run (guarded enabled next) allowed s events last ∧ Invariant last ∧
      Goal last := by
  induction size : measure s using Nat.strongRecOn generalizing s with
  | _ size induction =>
      by_cases goal : Goal s
      · exact ⟨[], s, .start, held, goal⟩
      obtain ⟨event, guard, can, kept, less⟩ := progress s held goal
      obtain ⟨events, last, run, ended⟩ := induction _ (by omega) kept rfl
      have first : Run (guarded enabled next) allowed s ([] ++ [event]) (next s event) :=
        .next event .start guard (guarded_iff.mpr ⟨can, rfl⟩)
      exact ⟨_, last, run_append first run, ended⟩

end Threads

end PbftBlock.Library.Channels
