import PbftBlock.ActionChanges
import PbftBlock.Library.GuardedRuns

/-!
# One node as a state machine

A replica is a worker together with the calls its goroutines still owe, and the
effects it has had so far. One event runs one handler to its end: a call from
outside, or one of the owed calls in any order. A process that has crashed does
nothing more.
-/

namespace PbftBlock.NodeMachine

open PbftBlock.ConsensusMessages PbftBlock.ConsensusWorker
open PbftBlock.ConsensusHandlers PbftBlock.HandlerActions
open PbftBlock.Library.GuardedRuns

set_option autoImplicit false

structure Replica where
  worker : Worker
  pending : List Call
  log : List Effect
  alive : Bool

def boot (nodeID leader : String) (peersnum : Int) : Replica :=
  ⟨startWorker nodeID leader peersnum, [], [], true⟩

def spawnedCall : Effect → Option Call
  | .spawn call => some call
  | _ => none

def absorb (replica : Replica) (rest : List Call) (outcome : Outcome) : Replica where
  worker := outcome.worker
  pending := rest ++ outcome.effects.filterMap spawnedCall
  log := replica.log ++ outcome.effects
  alive := outcome.result ≠ .crash

/-- Run one handler; `rest` are the calls owed besides this one. -/
def perform (now : Instant) (replica : Replica) (rest : List Call) (call : Call) : Replica :=
  absorb replica rest (runCall now replica.worker call)

inductive Event where
  | invoke (now : Instant) (call : Call)
  | resume (now : Instant) (index : Nat)
deriving DecidableEq

def eventCall (replica : Replica) : Event → Option Call
  | .invoke _ call => some call
  | .resume _ index => replica.pending[index]?

def step (replica : Replica) (event : Event) : Option Replica :=
  if !replica.alive then none
  else
    match event with
    | .invoke now call => some (perform now replica replica.pending call)
    | .resume now index =>
        replica.pending[index]?.map (perform now replica (replica.pending.eraseIdx index))

def EachCall (condition : Worker → Call → Prop) (replica : Replica) (event : Event) : Prop :=
  ∀ call, eventCall replica event = some call → condition replica.worker call

theorem step_performs {replica after : Replica} {event : Event}
    (stepped : step replica event = some after) :
    ∃ now rest call, eventCall replica event = some call ∧
      (rest = replica.pending ∨ ∃ index, rest = replica.pending.eraseIdx index) ∧
      after = perform now replica rest call := by
  unfold step at stepped
  split_ifs at stepped
  cases event with
  | invoke now call =>
      exact ⟨now, replica.pending, call, rfl, .inl rfl, (Option.some.inj stepped).symm⟩
  | resume now index =>
      obtain ⟨call, owed, result⟩ := Option.map_eq_some_iff.mp stepped
      exact ⟨now, replica.pending.eraseIdx index, call, owed, .inr ⟨index, rfl⟩, result.symm⟩

/-- An invariant of the worker and its history that every call keeps holds
after every run. -/
theorem run_keeps {condition : Worker → Call → Prop} (Invariant : Worker → List Effect → Prop)
    (kept : ∀ now worker log call, condition worker call → Invariant worker log →
      Invariant (runCall now worker call).worker (log ++ (runCall now worker call).effects))
    {first last : Replica} {events : List Event}
    (run : Run step (EachCall condition) first events last)
    (initial : Invariant first.worker first.log) : Invariant last.worker last.log := by
  refine run_invariant (fun replica => Invariant replica.worker replica.log) ?_ run initial
  intro replica event after guard stepped prior
  obtain ⟨now, rest, call, ran, _, rfl⟩ := step_performs stepped
  exact kept now replica.worker replica.log call (guard call ran) prior

/-- It is enough that every action of a call keeps the invariant. -/
theorem call_keeps_of_action (Invariant : Worker → List Effect → Prop)
    {now : Instant} {worker : Worker} {log : List Effect} {call : Call}
    (kept : ∀ history before effects after, Action now worker call before effects after →
      Invariant before history → Invariant after (history ++ effects))
    (initial : Invariant worker log) :
    Invariant (runCall now worker call).worker (log ++ (runCall now worker call).effects) := by
  refine chain_invariant (fun _ => True)
    (fun emitted state => Invariant state (log ++ emitted)) ?_ ?_
    (run_call_performs now worker call) (by simp)
  · simpa using initial
  · intro emitted state more after action _ prior
    rw [← List.append_assoc]
    exact kept _ _ _ _ action prior

end PbftBlock.NodeMachine
