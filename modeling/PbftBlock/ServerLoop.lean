import Mathlib.Data.List.Count
import PbftBlock.DialScheduler
import PbftBlock.Library.GuardedRuns
import PbftBlock.RlpDecoders
import PbftBlock.SubProtocols

/-!
# The loop of the server

`Server.run` of `p2p/server.go` with the dial scheduler and the goroutines that talk to it:
connections between their two checkpoints (`setupConn`), dial tasks, and peers (`runPeer`).

A state is one in which the loop waits in `select`. A turn takes one case of the `select` and
goes on to `scheduleTasks`, which reads the clock, ranges over the static nodes in some order
and may read random nodes from the table. A dial task returns only after its connection was
added or dropped; the guards of the turns say so.
-/

namespace PbftBlock.ServerLoop

open PbftBlock.DialScheduler PbftBlock.Library PbftBlock.Library.FiniteMaps
  PbftBlock.Library.GuardedRuns PbftBlock.NodeKeys PbftBlock.RlpDecoders PbftBlock.SubProtocols

set_option autoImplicit false

variable {Name : Type} [LinearOrder Name]

section Transcription

def maxActiveDialTasks : ℕ := 16

structure Config (Name : Type) where
  maxPeers : ℕ
  discovery : Bool
  self : NodeID
  staticNodes : List NodeID
  trustedNodes : List NodeID
  protocols : List (Protocol Name)

structure Conn where
  id : NodeID
  flags : ConnFlag
deriving DecidableEq

inductive DiscReason where
  | tooManyPeers
  | alreadyConnected
  | self
  | uselessPeer
deriving DecidableEq

def encHandshakeChecks (cfg : Config Name) (peers : FiniteMap NodeID Peer) (c : Conn) :
    Option DiscReason :=
  if !(c.flags.trusted || c.flags.staticDialed) && decide (cfg.maxPeers ≤ peers.entries.length) then
    some .tooManyPeers
  else if (peers.lookup c.id).isSome then some .alreadyConnected
  else if c.id = cfg.self then some .self
  else none

/-- The types that a connection claims to pass without the checks. -/
def exempt (nodeType : UInt64) : Bool := nodeType == 0 || nodeType == 4

def protoHandshakeChecks (cfg : Config Name) (peers : FiniteMap NodeID Peer) (c : Conn)
    (nodeType : UInt64) (caps : List (Cap Name)) : Option DiscReason :=
  if exempt nodeType then none
  else if cfg.protocols ≠ [] ∧ countMatchingProtocols cfg.protocols caps = 0 then some .uselessPeer
  else encHandshakeChecks cfg peers c

structure Reading where
  now : Int
  order : List StaticEntry
  random : List NodeID

/-- The dials that were asked for and those that were done. The server keeps no such log. -/
inductive Attempt where
  | began (id : NodeID) (now : Int)
  | ended (id : NodeID) (now : Int)
deriving DecidableEq

inductive Phase where
  | running
  | stopping
  | stopped
deriving DecidableEq

/-- `handshaking` are the connections that passed the first checkpoint, `live` the peers that
have not been received from `delpeer` yet. -/
structure Loop where
  dialer : Dialer
  peers : FiniteMap NodeID Peer
  runningTasks : List Task
  queuedTasks : List Task
  handshaking : List Conn
  live : List Peer
  phase : Phase
  clock : Int
  log : List Attempt

def startTasks (running ts : List Task) : List Task × List Task :=
  (running ++ ts.take (maxActiveDialTasks - running.length),
    ts.drop (maxActiveDialTasks - running.length))

def Loop.scheduleTasks (s : Loop) (r : Reading) : Loop :=
  let started := startTasks s.runningTasks s.queuedTasks
  if started.1.length < maxActiveDialTasks then
    let new := s.dialer.newTasks (started.1.length + started.2.length) s.peers r.now r.order r.random
    let more := startTasks started.1 new.1
    { s with
      dialer := new.2
      runningTasks := more.1
      queuedTasks := started.2 ++ more.2
      clock := r.now
      log := s.log ++ (new.1.filterMap Task.dest?).map fun id => .began id r.now }
  else { s with runningTasks := started.1, queuedTasks := started.2 }

/-- The cases of the `select`. A task that is done brings the results of its lookup, and a
connection at the second checkpoint what the protocol handshake has told. -/
inductive Turn (Name : Type) where
  | addstatic (n : NodeID)
  | peerOp
  | taskdone (t : Task) (results : List NodeID) (now : Int)
  | posthandshake (c : Conn)
  | addpeer (c : Conn) (nodeType : UInt64) (caps : List (Cap Name))
  | delpeer (p : Peer)

/-- `delTask` compares pointers; tasks that run together are never equal (`tasks_distinct`). -/
def Loop.finishTask (s : Loop) (t : Task) (results : List NodeID) (now : Int) : Loop :=
  { s with
    dialer := s.dialer.taskDone t results now
    runningTasks := s.runningTasks.erase t
    clock := now
    log := s.log ++ t.dest?.toList.map fun id => .ended id now }

def Config.mark (cfg : Config Name) (c : Conn) : Conn :=
  if cfg.trustedNodes.contains c.id then { c with flags := { c.flags with trusted := true } } else c

def Loop.checkpoint (cfg : Config Name) (s : Loop) (c : Conn) : Loop :=
  match encHandshakeChecks cfg s.peers c with
  | none => { s with handshaking := c :: s.handshaking }
  | some _ => s

def Loop.insertPeer (s : Loop) (p : Peer) : Loop :=
  { s with peers := s.peers.insert p.id p, live := p :: s.live }

def Loop.dropConn (s : Loop) (c : Conn) : Loop := { s with handshaking := s.handshaking.erase c }

def Loop.addPeer (cfg : Config Name) (s : Loop) (c : Conn) (nodeType : UInt64)
    (caps : List (Cap Name)) : Loop :=
  match protoHandshakeChecks cfg s.peers c nodeType caps with
  | none => (s.dropConn c).insertPeer ⟨c.id, c.flags, nodeType⟩
  | some _ => s.dropConn c

def Loop.delPeer (s : Loop) (p : Peer) : Loop :=
  { s with peers := s.peers.erase p.id, live := s.live.erase p }

def Loop.receive (cfg : Config Name) (s : Loop) : Turn Name → Loop
  | .addstatic n => { s with dialer := s.dialer.addStatic n }
  | .peerOp => s
  | .taskdone t results now => s.finishTask t results now
  | .posthandshake c => s.checkpoint cfg (cfg.mark c)
  | .addpeer c nodeType caps => s.addPeer cfg c nodeType caps
  | .delpeer p => s.delPeer p

/-- The goroutine on the other end of the channel is at the point where it sends. -/
def Loop.Offers (s : Loop) : Turn Name → Prop
  | .addstatic _ => True
  | .peerOp => True
  | .taskdone t _ _ => t ∈ s.runningTasks ∧
      ∀ c ∈ s.handshaking, t.dest? = some c.id → c.flags.inbound = true
  | .posthandshake c => c.flags = inboundConn ∨
      .dial ⟨c.flags, c.id⟩ ∈ s.runningTasks ∧
        ∀ other ∈ s.handshaking, other.id = c.id → other.flags.inbound = true
  | .addpeer c _ _ => c ∈ s.handshaking
  | .delpeer p => p ∈ s.live

instance (s : Loop) : (turn : Turn Name) → Decidable (s.Offers turn)
  | .addstatic _ => inferInstanceAs (Decidable True)
  | .peerOp => inferInstanceAs (Decidable True)
  | .taskdone _ _ _ => inferInstanceAs (Decidable (_ ∧ _))
  | .posthandshake _ => inferInstanceAs (Decidable (_ ∨ _ ∧ _))
  | .addpeer _ _ _ => inferInstanceAs (Decidable (_ ∈ _))
  | .delpeer _ => inferInstanceAs (Decidable (_ ∈ _))

/-- After `quit` the loop receives from `delpeer` until it knows no peer. -/
def Loop.stop (s : Loop) : Loop :=
  { s with phase := if s.peers.entries = [] then .stopped else .stopping }

inductive Event (Name : Type) where
  | turn (turn : Turn Name) (next : Reading)
  | abandon (c : Conn)
  | quit
  | spindown (p : Peer)

def step (cfg : Config Name) (s : Loop) : Event Name → Option Loop
  | .turn turn next =>
      if s.phase = .running ∧ s.Offers turn ∧
          next.order.Perm (s.receive cfg turn).dialer.static.entries then
        some ((s.receive cfg turn).scheduleTasks next)
      else none
  | .abandon c => if s.phase = .running ∧ c ∈ s.handshaking then some (s.dropConn c) else none
  | .quit => if s.phase = .running then some s.stop else none
  | .spindown p => if s.phase = .stopping ∧ p ∈ s.live then some (s.delPeer p).stop else none

def Config.dynPeers (cfg : Config Name) : ℕ := if cfg.discovery then (cfg.maxPeers + 1) / 2 else 0

def newLoop (cfg : Config Name) (clock : Int) : Loop :=
  ⟨newDialState cfg.staticNodes cfg.dynPeers, ∅, [], [], [], [], .running, clock, []⟩

/-- The states in which the loop can wait, for events that are `allowed`. -/
def Reached (cfg : Config Name) (allowed : Loop → Event Name → Prop) (s : Loop) : Prop :=
  ∃ (first : Reading) (events : List (Event Name)),
    first.order.Perm (newLoop cfg first.now).dialer.static.entries ∧
      Run (step cfg) allowed ((newLoop cfg first.now).scheduleTasks first) events s

def Forward (s : Loop) : Event Name → Prop
  | .turn (.taskdone _ _ now) next => s.clock ≤ now ∧ now ≤ next.now
  | .turn _ next => s.clock ≤ next.now
  | .abandon _ => True
  | .quit => True
  | .spindown _ => True

def Typed (_ : Loop) : Event Name → Prop
  | .turn (.addpeer _ nodeType _) _ => exempt nodeType = false
  | _ => True

instance (s : Loop) : (event : Event Name) → Decidable (Forward s event)
  | .turn (.taskdone _ _ _) _ => inferInstanceAs (Decidable (_ ∧ _))
  | .turn (.addstatic _) _ => inferInstanceAs (Decidable (_ ≤ _))
  | .turn .peerOp _ => inferInstanceAs (Decidable (_ ≤ _))
  | .turn (.posthandshake _) _ => inferInstanceAs (Decidable (_ ≤ _))
  | .turn (.addpeer _ _ _) _ => inferInstanceAs (Decidable (_ ≤ _))
  | .turn (.delpeer _) _ => inferInstanceAs (Decidable (_ ≤ _))
  | .abandon _ => inferInstanceAs (Decidable True)
  | .quit => inferInstanceAs (Decidable True)
  | .spindown _ => inferInstanceAs (Decidable True)

instance (s : Loop) : (event : Event Name) → Decidable (Typed s event)
  | .turn (.addpeer _ nodeType _) _ => inferInstanceAs (Decidable (exempt nodeType = false))
  | .turn (.taskdone _ _ _) _ => inferInstanceAs (Decidable True)
  | .turn (.addstatic _) _ => inferInstanceAs (Decidable True)
  | .turn .peerOp _ => inferInstanceAs (Decidable True)
  | .turn (.posthandshake _) _ => inferInstanceAs (Decidable True)
  | .turn (.delpeer _) _ => inferInstanceAs (Decidable True)
  | .abandon _ => inferInstanceAs (Decidable True)
  | .quit => inferInstanceAs (Decidable True)
  | .spindown _ => inferInstanceAs (Decidable True)

end Transcription

/-! ## Tasks -/

section Tasks

variable {cfg : Config Name} {s after : Loop}

/-- An invariant of the states in which the loop waits. -/
theorem reached_invariant {allowed : Loop → Event Name → Prop} (Invariant : Loop → Prop)
    (initial : ∀ first : Reading, first.order.Perm (newLoop cfg first.now).dialer.static.entries →
      Invariant ((newLoop cfg first.now).scheduleTasks first))
    (turns : ∀ s turn next, allowed s (.turn turn next) → s.phase = .running → s.Offers turn →
      next.order.Perm (s.receive cfg turn).dialer.static.entries → Invariant s →
        Invariant ((s.receive cfg turn).scheduleTasks next))
    (drops : ∀ s c, s.phase = .running → Invariant s → Invariant (s.dropConn c))
    (stops : ∀ s, s.phase = .running → Invariant s → Invariant s.stop)
    (removes : ∀ s p, s.phase = .stopping → p ∈ s.live → Invariant s →
      Invariant (s.delPeer p).stop)
    (reached : Reached cfg allowed s) : Invariant s := by
  obtain ⟨first, events, order, run⟩ := reached
  refine run_invariant Invariant (fun s event after guard stepped held => ?_) run
    (initial first order)
  cases event with
  | turn turn next =>
      simp only [step] at stepped
      split_ifs at stepped with enabled
      obtain rfl := Option.some.inj stepped
      exact turns s turn next guard enabled.1 enabled.2.1 enabled.2.2 held
  | abandon c =>
      simp only [step] at stepped
      split_ifs at stepped with enabled
      obtain rfl := Option.some.inj stepped
      exact drops s c enabled.1 held
  | quit =>
      simp only [step] at stepped
      split_ifs at stepped with enabled
      obtain rfl := Option.some.inj stepped
      exact stops s enabled held
  | spindown p =>
      simp only [step] at stepped
      split_ifs at stepped with enabled
      obtain rfl := Option.some.inj stepped
      exact removes s p enabled.1 enabled.2 held

theorem reached_weaken {allowed weaker : Loop → Event Name → Prop}
    (weaken : ∀ s event, allowed s event → weaker s event) (reached : Reached cfg allowed s) :
    Reached cfg weaker s := by
  obtain ⟨first, events, order, run⟩ := reached
  exact ⟨first, events, order, run_weaken weaken run⟩

section Samples

def named (byte : UInt8) : NodeID := filled 64 (List.replicate 64 byte)

def sampleConfig : Config ℕ :=
  ⟨2, true, named 0, [named 1], [], [⟨7, 63, 17⟩]⟩

def sampleReading (seconds : Int) : Reading :=
  ⟨seconds * second, [⟨named 1, staticDialedConn, named 1⟩], [named 2]⟩

/-- The static node is dialed and added, and so is a node that a lookup has found. -/
def sampleEvents : List (Event ℕ) :=
  [.turn (.posthandshake ⟨named 1, staticDialedConn⟩) (sampleReading 1),
    .turn (.addpeer ⟨named 1, staticDialedConn⟩ 1 [⟨7, 63⟩]) (sampleReading 1),
    .turn (.taskdone (.dial ⟨staticDialedConn, named 1⟩) [] (1 * second)) (sampleReading 2),
    .turn (.taskdone .discover [named 3] (5 * second)) (sampleReading 5),
    .turn (.posthandshake ⟨named 3, dynDialedConn⟩) (sampleReading 6),
    .turn (.addpeer ⟨named 3, dynDialedConn⟩ 1 [⟨7, 63⟩]) (sampleReading 6),
    .turn (.taskdone (.dial ⟨dynDialedConn, named 3⟩) [] (6 * second)) (sampleReading 6)]

def sampleRest : List (Event ℕ) :=
  [.turn (.taskdone (.waitExpire (25 * second)) [] (32 * second)) (sampleReading 32),
    .turn (.taskdone (.waitExpire (4 * second)) [] (37 * second)) (sampleReading 37)]

theorem sample_ends :
    ∃ s, Reached sampleConfig (fun s event => Forward s event ∧ Typed s event) s ∧
      s.phase = .running ∧ s.runningTasks = [] ∧ s.live.length = 2 ∧ s.log.length = 4 := by
  have passed : (replay (step sampleConfig)
      (fun s event => decide (Forward s event ∧ Typed s event))
      ((newLoop sampleConfig 0).scheduleTasks (sampleReading 0)) (sampleEvents ++ sampleRest)).any
      (fun s => decide (s.phase = .running ∧ s.runningTasks = [] ∧ s.live.length = 2 ∧
        s.log.length = 4)) = true := by
    decide +kernel
  obtain ⟨s, run, facts⟩ := run_reaching _ _ (fun _ _ => of_decide_eq_true) passed
  exact ⟨s, ⟨sampleReading 0, _, by decide, run⟩, of_decide_eq_true facts⟩

end Samples

theorem start_tasks_spec {running : List Task} (ts : List Task)
    (limit : running.length ≤ maxActiveDialTasks) :
    (startTasks running ts).1 ++ (startTasks running ts).2 = running ++ ts ∧
      (startTasks running ts).1.length ≤ maxActiveDialTasks ∧
      ((startTasks running ts).1.length < maxActiveDialTasks → (startTasks running ts).2 = []) := by
  refine ⟨?_, ?_, fun fewer => ?_⟩
  · rw [startTasks, List.append_assoc, List.take_append_drop]
  · rw [startTasks, List.length_append, List.length_take]
    omega
  · rw [startTasks, List.length_append, List.length_take] at fewer
    rw [startTasks, List.drop_eq_nil_iff]
    omega

def Loop.tasks (s : Loop) : List Task := s.runningTasks ++ s.queuedTasks

def isWait : Task → Bool
  | .waitExpire _ => true
  | _ => false

structure Sound (s : Loop) : Prop where
  heap : IsHistory s.dialer.hist
  made : ∀ entry ∈ s.dialer.static.entries, StaticEntry.Made entry
  dials : (s.tasks.filterMap Task.dest?).Perm s.dialer.dialing.keys
  flags : ∀ t, .dial t ∈ s.tasks → s.dialer.dialing.lookup t.dest = some t.flags ∧
    (t.flags = dynDialedConn ∨ t.flags = staticDialedConn)
  lookups : s.tasks.count .discover = if s.dialer.lookupRunning then 1 else 0
  waits : s.tasks.countP isWait ≤ 1
  limit : s.runningTasks.length ≤ maxActiveDialTasks

theorem dial_dests (dials : List DialTask) :
    (dials.map Task.dial).filterMap Task.dest? = dials.map DialTask.dest := by
  rw [List.filterMap_map]
  exact congrFun List.filterMap_eq_map dials

structure NewTasks (dials : List DialTask) (lookup : Bool) (idle : Bool) (new : List Task) :
    Prop where
  dests : new.filterMap Task.dest? = dials.map DialTask.dest
  dials : ∀ t, .dial t ∈ new ↔ t ∈ dials
  lookups : new.count .discover = if lookup then 1 else 0
  waits : new.countP isWait ≤ if idle then 1 else 0

theorem new_tasks_kinds (dials : List DialTask) (lookup : Bool) (nRunning : ℕ) (hist : DialHistory)
    (now : Int) {tasks : List Task}
    (shape : tasks = dials.map Task.dial ++ (if lookup then [.discover] else [])) :
    NewTasks dials lookup (nRunning = 0) (tasks ++ waitTasks nRunning tasks hist now) := by
  have base : NewTasks dials lookup false tasks := by
    subst shape
    constructor
    · rw [List.filterMap_append, dial_dests]
      cases lookup with
      | false => exact List.append_nil _
      | true => exact List.append_nil _
    · cases lookup with
      | false => simp
      | true => simp
    · have none : (dials.map Task.dial).count .discover = 0 := by
        rw [List.count_eq_zero]
        simp
      rw [List.count_append, none]
      cases lookup with
      | false => rfl
      | true => rfl
    · have none : (dials.map Task.dial).countP isWait = 0 := by
        rw [List.countP_eq_zero]
        simp [isWait]
      rw [List.countP_append, none]
      cases lookup with
      | false => exact Nat.le_refl 0
      | true => exact Nat.le_refl 0
  rcases wait_tasks_cases nRunning tasks hist now with none | ⟨idle, _, duration, wait⟩
  · rw [none, List.append_nil]
    exact ⟨base.dests, base.dials, base.lookups, Nat.le_trans base.waits (Nat.zero_le _)⟩
  · rw [wait]
    refine ⟨?_, ?_, ?_, ?_⟩
    · rw [List.filterMap_append, base.dests]
      exact List.append_nil _
    · intro t
      rw [List.mem_append, base.dials]
      simp
    · rw [List.count_append, base.lookups]
      rfl
    · rw [List.countP_append, Nat.le_zero.mp base.waits, idle]
      exact Nat.le_refl 1

/-- What the scheduling of tasks does: the queue moves up, and if that leaves room the
scheduler adds its tasks. -/
inductive Scheduled (s : Loop) (r : Reading) (after : Loop) : Prop where
  | full (tasks : after.tasks = s.tasks) (dialer : after.dialer = s.dialer)
      (clock : after.clock = s.clock) (log : after.log = s.log)
      (all : after.runningTasks.length = maxActiveDialTasks)
  | room (decision : (Plan × Int) × List NodeID) (hist : DialHistory) (lookup : Bool)
      (new : List Task) (decided : Decided s.dialer s.peers hist r.order decision)
      (heap : IsHistory hist)
      (left : hist.toList.Perm (s.dialer.hist.toList.filter fun past => r.now ≤ past.exp))
      (launched : lookup = true ↔
        (decision.2.length : Int) < decision.1.2 ∧ s.dialer.lookupRunning = false)
      (kinds : NewTasks decision.1.1.dials lookup (s.tasks = []) new)
      (idle : s.tasks = [] → new = [] → hist.toList = [])
      (tasks : after.tasks = s.tasks ++ new)
      (dialer : after.dialer =
        { s.dialer with
          dialing := decision.1.1.dialing
          lookupBuf := decision.2
          lookupRunning := s.dialer.lookupRunning || lookup
          hist := hist })
      (clock : after.clock = r.now)
      (log : after.log = s.log ++ decision.1.1.dials.map fun t => Attempt.began t.dest r.now)

theorem schedule_scheduled (sound : Sound s) {r : Reading}
    (order : r.order.Perm s.dialer.static.entries) : Scheduled s r (s.scheduleTasks r) := by
  obtain ⟨all, limit, room⟩ := start_tasks_spec s.queuedTasks sound.limit
  unfold Loop.scheduleTasks
  generalize startTasks s.runningTasks s.queuedTasks = started at all limit room ⊢
  obtain ⟨first, rest⟩ := started
  dsimp only at all limit room ⊢
  by_cases fewer : first.length < maxActiveDialTasks
  · rw [if_pos fewer]
    obtain rfl := room fewer
    rw [List.append_nil] at all
    obtain rfl : first = s.tasks := all
    have made : ∀ entry ∈ r.order, StaticEntry.Made entry := fun entry member =>
      sound.made entry (order.mem_iff.mp member)
    obtain ⟨decision, hist, lookup, decided, heap, left, launched, tasks, shape, result⟩ :=
      new_tasks_spec sound.heap made s.tasks.length s.peers r.now r.random
    rw [List.length_nil, Nat.add_zero, result]
    have kinds := new_tasks_kinds decision.1.1.dials lookup s.tasks.length hist r.now shape
    obtain ⟨moved, _, _⟩ := start_tasks_spec (tasks ++ waitTasks s.tasks.length tasks hist r.now) limit
    refine .room decision hist lookup _ decided heap left launched ?_ ?_ moved rfl rfl ?_
    · simpa only [List.length_eq_zero_iff] using kinds
    · intro none empty
      obtain ⟨rfl, wait⟩ := List.append_eq_nil_iff.mp empty
      rw [none] at wait
      exact wait_tasks_none wait
    · dsimp only
      rw [kinds.dests, List.map_map]
      rfl
  · rw [if_neg fewer]
    exact .full all rfl rfl rfl (by dsimp only; omega)

theorem schedule_limit (sound : Sound s) (r : Reading) :
    (s.scheduleTasks r).runningTasks.length ≤ maxActiveDialTasks ∧
      ((s.scheduleTasks r).runningTasks.length < maxActiveDialTasks →
        (s.scheduleTasks r).queuedTasks = []) := by
  obtain ⟨_, limit, room⟩ := start_tasks_spec s.queuedTasks sound.limit
  unfold Loop.scheduleTasks
  generalize startTasks s.runningTasks s.queuedTasks = started at limit room ⊢
  obtain ⟨first, rest⟩ := started
  dsimp only at limit room ⊢
  by_cases fewer : first.length < maxActiveDialTasks
  · rw [if_pos fewer]
    obtain rfl := room fewer
    obtain ⟨_, limit', room'⟩ := start_tasks_spec
      (s.dialer.newTasks (first.length + 0) s.peers r.now r.order r.random).1 limit
    exact ⟨limit', room'⟩
  · rw [if_neg fewer]
    exact ⟨limit, fun less => absurd less fewer⟩

theorem sound_same (sound : Sound s) (dialer : after.dialer = s.dialer)
    (tasks : after.tasks = s.tasks) (limit : after.runningTasks.length ≤ maxActiveDialTasks) :
    Sound after := by
  refine ⟨?_, ?_, ?_, ?_, ?_, ?_, limit⟩
  · rw [dialer]
    exact sound.heap
  · rw [dialer]
    exact sound.made
  · rw [tasks, dialer]
    exact sound.dials
  · rw [tasks, dialer]
    exact sound.flags
  · rw [tasks, dialer]
    exact sound.lookups
  · rw [tasks]
    exact sound.waits

theorem sound_schedule (sound : Sound s) {r : Reading}
    (order : r.order.Perm s.dialer.static.entries) : Sound (s.scheduleTasks r) := by
  have limit := (schedule_limit sound r).1
  cases schedule_scheduled sound order with
  | full tasks dialer clock log all => exact sound_same sound dialer tasks limit
  | room decision hist lookup new decided heap left launched kinds idle tasks dialer clock log =>
      refine ⟨?_, ?_, ?_, ?_, ?_, ?_, limit⟩
      · rw [dialer]
        exact heap
      · rw [dialer]
        exact sound.made
      · rw [tasks, dialer, List.filterMap_append, kinds.dests]
        exact (sound.dials.append_right _).trans
          (List.perm_append_comm.trans decided.planned.keys.symm)
      · rw [tasks, dialer]
        intro t member
        rcases List.mem_append.mp member with old | new
        · exact ⟨decided.planned.kept _ _ (sound.flags t old).1, (sound.flags t old).2⟩
        · have member := (kinds.dials t).mp new
          exact ⟨decided.planned.flags t member, decided.planned.outward t member⟩
      · rw [tasks, dialer, List.count_append, sound.lookups, kinds.lookups]
        dsimp only
        cases lookup with
        | false => simp
        | true => simp [(launched.mp rfl).2]
      · have old := sound.waits
        have fresh := kinds.waits
        rw [tasks, List.countP_append]
        by_cases none : s.tasks = []
        · rw [none] at old ⊢
          rw [List.countP_nil]
          split_ifs at fresh <;> omega
        · rw [if_neg (by simpa using none)] at fresh
          omega

omit [LinearOrder Name] in
theorem checkpoint_cases (cfg : Config Name) (s : Loop) (c : Conn) :
    s.checkpoint cfg c = s ∨ encHandshakeChecks cfg s.peers c = none ∧
      s.checkpoint cfg c = { s with handshaking := c :: s.handshaking } := by
  unfold Loop.checkpoint
  cases checked : encHandshakeChecks cfg s.peers c with
  | none => exact .inr ⟨rfl, rfl⟩
  | some reason => exact .inl rfl

theorem add_peer_cases (cfg : Config Name) (s : Loop) (c : Conn) (nodeType : UInt64)
    (caps : List (Cap Name)) :
    s.addPeer cfg c nodeType caps = s.dropConn c ∨
      protoHandshakeChecks cfg s.peers c nodeType caps = none ∧
        s.addPeer cfg c nodeType caps = (s.dropConn c).insertPeer ⟨c.id, c.flags, nodeType⟩ := by
  unfold Loop.addPeer
  cases checked : protoHandshakeChecks cfg s.peers c nodeType caps with
  | none => exact .inr ⟨rfl, rfl⟩
  | some reason => exact .inl rfl

theorem made_insert {static : FiniteMap NodeID DialTask}
    (made : ∀ entry ∈ static.entries, StaticEntry.Made entry) (n : NodeID) :
    ∀ entry ∈ (static.insert n ⟨staticDialedConn, n⟩).entries, StaticEntry.Made entry := by
  intro entry member
  rw [AList.entries_insert] at member
  rcases List.mem_cons.mp member with rfl | old
  · rfl
  · exact made entry ((List.kerase_sublist n _).subset old)

theorem finish_tasks {t : Task} (running : t ∈ s.runningTasks) (results : List NodeID) (now : Int) :
    s.tasks.Perm (t :: (s.finishTask t results now).tasks) :=
  (List.perm_cons_erase running).append_right s.queuedTasks

theorem sound_finish (sound : Sound s) {t : Task} (running : t ∈ s.runningTasks)
    (results : List NodeID) (now : Int) : Sound (s.finishTask t results now) := by
  have tasks := finish_tasks running results now
  have limit : (s.finishTask t results now).runningTasks.length ≤ maxActiveDialTasks :=
    Nat.le_trans (List.erase_sublist.length_le) sound.limit
  have dests := (tasks.filterMap Task.dest?).symm.trans sound.dials
  have lookups := tasks.count_eq Task.discover
  have waits := tasks.countP_eq isWait
  have members : ∀ u, u ∈ (s.finishTask t results now).tasks → u ∈ s.tasks := fun u member =>
    tasks.mem_iff.mpr (.tail _ member)
  rw [sound.lookups, List.count_cons] at lookups
  rw [List.countP_cons] at waits
  have atMost := sound.waits
  cases t with
  | dial t =>
      have key := (sound.flags t (List.mem_append_left _ running)).1
      have distinct := dests.nodup_iff.mpr s.dialer.dialing.keys_nodup
      have others := (List.Perm.cons_inv (dests.trans (keys_erase_perm key)))
      refine ⟨(add_spec sound.heap _ _).2, sound.made, others, fun u member => ?_, ?_, ?_, limit⟩
      · have apart : u.dest ≠ t.dest := by
          intro same
          refine (List.nodup_cons.mp distinct).1 ?_
          exact List.mem_filterMap.mpr ⟨.dial u, member, congrArg some same⟩
        change (s.dialer.dialing.erase t.dest).lookup u.dest = _ ∧ _
        rw [lookup_erase_eq, if_neg apart]
        exact sound.flags u (members _ member)
      · exact lookups.symm
      · simp only [isWait] at waits
        omega
  | discover =>
      refine ⟨sound.heap, sound.made, dests, fun u member => sound.flags u (members _ member), ?_, ?_,
        limit⟩
      · simp only [BEq.rfl, if_true] at lookups
        change List.count _ _ = 0
        split_ifs at lookups
        omega
      · simp only [isWait] at waits
        omega
  | waitExpire duration =>
      refine ⟨sound.heap, sound.made, dests, fun u member => sound.flags u (members _ member),
        lookups.symm, ?_, limit⟩
      simp only [isWait, if_true] at waits
      omega

theorem sound_receive (sound : Sound s) {turn : Turn Name} (offers : s.Offers turn) :
    Sound (s.receive cfg turn) := by
  cases turn with
  | addstatic n =>
      exact ⟨sound.heap, made_insert sound.made n, sound.dials, sound.flags, sound.lookups,
        sound.waits, sound.limit⟩
  | peerOp => exact sound
  | taskdone t results now => exact sound_finish sound offers.1 results now
  | posthandshake c =>
      rw [Loop.receive]
      rcases checkpoint_cases cfg s (cfg.mark c) with same | ⟨_, passed⟩
      · rw [same]
        exact sound
      · rw [passed]
        exact sound_same sound rfl rfl sound.limit
  | addpeer c nodeType caps =>
      rw [Loop.receive]
      rcases add_peer_cases cfg s c nodeType caps with dropped | ⟨_, added⟩
      · rw [dropped]
        exact sound_same sound rfl rfl sound.limit
      · rw [added]
        exact sound_same sound rfl rfl sound.limit
  | delpeer p => exact sound_same sound rfl rfl sound.limit

theorem static_made (nodes : List NodeID) (dialer : Dialer)
    (made : ∀ entry ∈ dialer.static.entries, StaticEntry.Made entry) :
    (∀ entry ∈ (nodes.foldl Dialer.addStatic dialer).static.entries, StaticEntry.Made entry) ∧
      (nodes.foldl Dialer.addStatic dialer).dialing = dialer.dialing ∧
      (nodes.foldl Dialer.addStatic dialer).hist = dialer.hist ∧
      (nodes.foldl Dialer.addStatic dialer).lookupRunning = dialer.lookupRunning ∧
      (nodes.foldl Dialer.addStatic dialer).maxDynDials = dialer.maxDynDials := by
  induction nodes generalizing dialer with
  | nil => exact ⟨made, rfl, rfl, rfl, rfl⟩
  | cons n rest induction => exact induction (dialer.addStatic n) (made_insert made n)

omit [LinearOrder Name] in
theorem new_dialer (cfg : Config Name) (clock : Int) :
    (∀ entry ∈ (newLoop cfg clock).dialer.static.entries, StaticEntry.Made entry) ∧
      (newLoop cfg clock).dialer.dialing = ∅ ∧ (newLoop cfg clock).dialer.hist = #[] ∧
      (newLoop cfg clock).dialer.lookupRunning = false ∧
      (newLoop cfg clock).dialer.maxDynDials = cfg.dynPeers :=
  static_made cfg.staticNodes _ (List.forall_mem_nil _)

omit [LinearOrder Name] in
theorem sound_new (cfg : Config Name) (clock : Int) : Sound (newLoop cfg clock) := by
  obtain ⟨made, dialing, hist, lookups, _⟩ := new_dialer cfg clock
  refine ⟨?_, made, ?_, fun t member => absurd member List.not_mem_nil, ?_, Nat.zero_le _,
    Nat.zero_le _⟩
  · rw [hist]
    exact BinaryHeap.is_heap_empty
  · rw [dialing]
    exact .nil
  · rw [lookups]
    rfl

theorem sound_reached {allowed : Loop → Event Name → Prop} (reached : Reached cfg allowed s) :
    Sound s :=
  reached_invariant Sound (fun first order => sound_schedule (sound_new cfg first.now) order)
    (fun _ _ _ _ _ offers order sound => sound_schedule (sound_receive sound offers) order)
    (fun _ _ _ sound => sound_same sound rfl rfl sound.limit)
    (fun _ _ sound => sound_same sound rfl rfl sound.limit)
    (fun _ _ _ _ sound => sound_same sound rfl rfl sound.limit) reached

theorem tasks_distinct (sound : Sound s) : s.tasks.Nodup := by
  rw [List.nodup_iff_count_le_one]
  intro t
  cases t with
  | dial t =>
      have dests := sound.dials.nodup_iff.mpr s.dialer.dialing.keys_nodup
      have once := List.nodup_iff_count_le_one.mp dests t.dest
      rw [List.count_filterMap] at once
      refine Nat.le_trans (List.countP_mono_left fun u _ same => ?_) once
      obtain rfl := eq_of_beq same
      exact BEq.rfl
  | discover =>
      rw [sound.lookups]
      split_ifs <;> decide
  | waitExpire duration =>
      refine Nat.le_trans (List.countP_mono_left fun u _ same => ?_) sound.waits
      obtain rfl := eq_of_beq same
      rfl

/-- At most sixteen tasks run. No two tasks are equal, no node is dialed twice at a time, and
the scheduler knows which nodes are being dialed and whether a lookup goes on. -/
theorem one_dial_per_node {allowed : Loop → Event Name → Prop} (reached : Reached cfg allowed s) :
    s.runningTasks.length ≤ maxActiveDialTasks ∧ s.tasks.Nodup ∧
      (s.tasks.filterMap Task.dest?).Nodup ∧
      (∀ id, id ∈ s.tasks.filterMap Task.dest? ↔ ∃ flags, s.dialer.dialing.lookup id = some flags) ∧
      (.discover ∈ s.tasks ↔ s.dialer.lookupRunning = true) := by
  have sound := sound_reached reached
  refine ⟨sound.limit, tasks_distinct sound,
    sound.dials.nodup_iff.mpr s.dialer.dialing.keys_nodup, fun id => ?_, ?_⟩
  · rw [sound.dials.mem_iff, mem_keys_iff]
  · rw [← List.count_pos_iff, sound.lookups]
    cases s.dialer.lookupRunning with
    | false => simp
    | true => simp

theorem sampled_dials_once :
    ∃ s, Reached sampleConfig (fun s event => Forward s event ∧ Typed s event) s ∧
      s.live.length = 2 ∧ s.tasks.Nodup := by
  obtain ⟨s, reached, _, _, peers, _⟩ := sample_ends
  exact ⟨s, reached, peers, (one_dial_per_node reached).2.1⟩

end Tasks

/-! ## A loop without tasks -/

section Idle

variable {cfg : Config Name} {s : Loop}

theorem schedule_frame (s : Loop) (r : Reading) :
    (s.scheduleTasks r).peers = s.peers ∧ (s.scheduleTasks r).handshaking = s.handshaking ∧
      (s.scheduleTasks r).live = s.live ∧ (s.scheduleTasks r).phase = s.phase ∧
      s.runningTasks <+: (s.scheduleTasks r).runningTasks := by
  unfold Loop.scheduleTasks
  dsimp only
  by_cases fewer : (startTasks s.runningTasks s.queuedTasks).1.length < maxActiveDialTasks
  · rw [if_pos fewer]
    exact ⟨rfl, rfl, rfl, rfl, (List.prefix_append _ _).trans (List.prefix_append _ _)⟩
  · rw [if_neg fewer]
    exact ⟨rfl, rfl, rfl, rfl, List.prefix_append _ _⟩

/-- Nothing is left to do: no dial has to be remembered, all static nodes are connected, and so
are enough dynamic nodes. -/
structure Satisfied (s : Loop) : Prop where
  queue : s.queuedTasks = []
  hist : s.dialer.hist.toList = []
  statics : ∀ n t, s.dialer.static.lookup n = some t → ∃ p, s.peers.lookup n = some p
  dynamic : s.dialer.maxDynDials ≤ s.peers.entries.countP fun entry => entry.2.flags.dynDialed

theorem schedule_satisfied (sound : Sound s) {r : Reading}
    (order : r.order.Perm s.dialer.static.entries) (idle : (s.scheduleTasks r).runningTasks = []) :
    Satisfied (s.scheduleTasks r) := by
  have queue := (schedule_limit sound r).2 (by rw [idle]; decide)
  have none : (s.scheduleTasks r).tasks = [] := by
    rw [Loop.tasks, idle, queue]
    rfl
  obtain ⟨peers, _⟩ := schedule_frame s r
  cases schedule_scheduled sound order with
  | full tasks dialer clock log all =>
      rw [idle] at all
      cases all
  | room decision hist lookup new decided heap left launched kinds waits tasks dialer clock log =>
      rw [none] at tasks
      obtain ⟨before, rfl⟩ := List.append_eq_nil_iff.mp tasks.symm
      have empty := waits before rfl
      have noDials : decision.1.1.dials = [] := List.map_eq_nil_iff.mp kinds.dests.symm
      have noDialing : s.dialer.dialing.keys = [] := by
        have keys := sound.dials
        rw [before] at keys
        exact keys.nil_eq.symm
      have noLookup : s.dialer.lookupRunning = false := by
        have lookups := sound.lookups
        rw [before] at lookups
        cases running : s.dialer.lookupRunning with
        | false => rfl
        | true =>
            rw [running] at lookups
            cases lookups
      -- no lookup was launched, so the results were enough or none of them is left
      have enough : decision.1.2 ≤ 0 := by
        have idle : lookup = false := by
          have lookups := kinds.lookups
          cases lookup with
          | false => rfl
          | true => cases lookups
        rcases decided.tried with tried | done
        · by_contra more
          rw [idle, tried] at launched
          have started := launched.mpr ⟨by simpa using more, noLookup⟩
          cases started
        · exact done
      refine ⟨queue, ?_, ?_, ?_⟩
      · rw [dialer]
        exact empty
      · intro n t found
        rw [dialer] at found
        have member := order.mem_iff.mpr (AList.mem_lookup_iff.mp found)
        have dialing := decided.statics _ member
        have keys := decided.planned.keys
        rw [noDials, noDialing] at keys
        have absent : decision.1.1.dialing.lookup n = Option.none := by
          rw [Option.eq_none_iff_forall_ne_some]
          intro flags present
          have key := (mem_keys_iff _ _).mpr ⟨flags, present⟩
          rw [keys.eq_nil] at key
          exact absurd key List.not_mem_nil
        have forgotten : hist.contains n = false := by
          rw [DialHistory.contains, empty]
          rfl
        rw [isDialing, absent, forgotten] at dialing
        rw [peers]
        simpa [Option.isSome_iff_exists] using dialing
      · have sum := decided.sum
        have zero : decision.1.1.dynamic = 0 := by
          rw [Plan.dynamic, noDials]
          rfl
        have entries : s.dialer.dialing.entries = [] := List.map_eq_nil_iff.mp noDialing
        rw [zero, Dialer.needDynDials, entries, List.countP_nil] at sum
        rw [dialer, peers]
        dsimp only
        omega

/-- The loop waits without a task only when there is nothing to do: a static node that is not
connected, too few dynamic peers or a dial in the history keep a task running, which will wake
the loop up. -/
theorem idle_loop_satisfied {allowed : Loop → Event Name → Prop} (reached : Reached cfg allowed s)
    (running : s.phase = .running) (idle : s.runningTasks = []) : Satisfied s := by
  have invariant := reached_invariant
    (fun s => Sound s ∧ (s.phase = .running → s.runningTasks = [] → Satisfied s))
    (fun first order => ⟨sound_schedule (sound_new cfg first.now) order, fun _ idle =>
      schedule_satisfied (sound_new cfg first.now) order idle⟩)
    (fun s turn next _ _ offers order held =>
      have sound := sound_receive held.1 offers
      ⟨sound_schedule sound order, fun _ idle => schedule_satisfied sound order idle⟩)
    (fun s c _ held => ⟨sound_same held.1 rfl rfl held.1.limit, fun running idle =>
      have before := held.2 running idle
      ⟨before.queue, before.hist, before.statics, before.dynamic⟩⟩)
    (fun s _ held => ⟨sound_same held.1 rfl rfl held.1.limit, fun running => by
      rw [Loop.stop] at running
      split_ifs at running⟩)
    (fun s p _ _ held => ⟨sound_same held.1 rfl rfl held.1.limit, fun running => by
      rw [Loop.stop] at running
      split_ifs at running⟩) reached
  exact invariant.2 running idle

theorem sampled_idle_loop :
    ∃ s, Reached sampleConfig (fun s event => Forward s event ∧ Typed s event) s ∧
      s.live.length = 2 ∧ Satisfied s := by
  obtain ⟨s, reached, running, idle, peers, _⟩ := sample_ends
  exact ⟨s, reached, peers, idle_loop_satisfied reached running idle⟩

end Idle

/-! ## Time between dials -/

section Redials

variable {cfg : Config Name} {s : Loop}

def Attempt.time : Attempt → Int
  | .began _ now => now
  | .ended _ now => now

def Attempt.node : Attempt → NodeID
  | .began id _ => id
  | .ended id _ => id

/-- A dial begins after the time for which earlier dials of the node are remembered. -/
def Apart (earlier later : Attempt) : Prop :=
  ∀ id now, later = .began id now → earlier.node = id →
    earlier.time + dialHistoryExpiration < now

structure Spaced (s : Loop) : Prop where
  pairs : s.log.Pairwise Apart
  past : ∀ attempt ∈ s.log, attempt.time ≤ s.clock
  recent : ∀ id past, .ended id past ∈ s.log →
    past + dialHistoryExpiration < s.clock ∨
      ⟨id, past + dialHistoryExpiration⟩ ∈ s.dialer.hist.toList
  answered : ∀ id past, .began id past ∈ s.log → id ∈ s.dialer.dialing.keys ∨
    ∃ later, .ended id later ∈ s.log ∧ past ≤ later

theorem spaced_same {after : Loop} (spaced : Spaced s) (dialing : after.dialer.dialing = s.dialer.dialing)
    (hist : after.dialer.hist = s.dialer.hist) (clock : after.clock = s.clock)
    (log : after.log = s.log) : Spaced after := by
  refine ⟨?_, ?_, ?_, ?_⟩
  · rw [log]
    exact spaced.pairs
  · rw [log, clock]
    exact spaced.past
  · rw [log, clock, hist]
    exact spaced.recent
  · rw [log, dialing]
    exact spaced.answered

theorem spaced_schedule (sound : Sound s) (spaced : Spaced s) {r : Reading}
    (order : r.order.Perm s.dialer.static.entries) (forward : s.clock ≤ r.now) :
    Spaced (s.scheduleTasks r) := by
  cases schedule_scheduled sound order with
  | full tasks dialer clock log all =>
      exact spaced_same spaced (by rw [dialer]) (by rw [dialer]) clock log
  | room decision hist lookup new decided heap left launched kinds waits tasks dialer clock log =>
      -- what the history has dropped lies far enough back
      have recent : ∀ id past, .ended id past ∈ s.log → past + dialHistoryExpiration < r.now ∨
          ⟨id, past + dialHistoryExpiration⟩ ∈ hist.toList := by
        intro id past member
        rcases spaced.recent id past member with old | kept
        · exact .inl (by omega)
        · by_cases expired : past + dialHistoryExpiration < r.now
          · exact .inl expired
          · refine .inr (left.mem_iff.mpr (List.mem_filter.mpr ⟨kept, ?_⟩))
            exact decide_eq_true (Int.not_lt.mp expired)
      have free : ∀ t ∈ decision.1.1.dials, ∀ past, .ended t.dest past ∈ s.log →
          past + dialHistoryExpiration < r.now := by
        intro t member past ended
        rcases recent t.dest past ended with old | kept
        · exact old
        · have known := (contains_iff t.dest).mpr ⟨_, kept, rfl⟩
          rw [(decided.planned.fresh t member).2] at known
          cases known
      have distinct := planned_distinct decided.planned
      refine ⟨?_, ?_, ?_, ?_⟩
      · rw [log, List.pairwise_append]
        refine ⟨spaced.pairs, ?_, ?_⟩
        · rw [List.pairwise_map]
          have dests := List.pairwise_map.mp (List.nodup_append.mp distinct).1
          refine dests.imp fun apart id now same node => ?_
          obtain ⟨rfl, rfl⟩ := Attempt.began.inj same
          exact absurd node apart
        · intro earlier member later new id now same node
          obtain ⟨t, dial, rfl⟩ := List.mem_map.mp new
          obtain ⟨rfl, rfl⟩ := Attempt.began.inj same
          cases earlier with
          | ended id past =>
              obtain rfl : id = t.dest := node
              exact free t dial past member
          | began id past =>
              obtain rfl : id = t.dest := node
              rcases spaced.answered t.dest past member with dialing | ⟨later, ended, after⟩
              · exact absurd rfl ((List.nodup_append.mp distinct).2.2 t.dest
                  (List.mem_map_of_mem dial) t.dest dialing)
              · have space := free t dial later ended
                change past + _ < _
                omega
      · rw [log, clock]
        intro attempt member
        rcases List.mem_append.mp member with old | new
        · exact Int.le_trans (spaced.past attempt old) forward
        · obtain ⟨t, _, rfl⟩ := List.mem_map.mp new
          exact Int.le_refl _
      · rw [log, clock, dialer]
        intro id past member
        rcases List.mem_append.mp member with old | new
        · exact recent id past old
        · obtain ⟨t, _, same⟩ := List.mem_map.mp new
          cases same
      · rw [log, dialer]
        intro id past member
        rcases List.mem_append.mp member with old | new
        · rcases spaced.answered id past old with dialing | ⟨later, ended, after⟩
          · exact .inl (decided.planned.keys.mem_iff.mpr (List.mem_append_right _ dialing))
          · exact .inr ⟨later, List.mem_append_left _ ended, after⟩
        · obtain ⟨t, dial, same⟩ := List.mem_map.mp new
          obtain ⟨rfl, _⟩ := Attempt.began.inj same
          exact .inl (decided.planned.keys.mem_iff.mpr
            (List.mem_append_left _ (List.mem_map_of_mem dial)))

theorem spaced_later (spaced : Spaced s) {now : Int} (forward : s.clock ≤ now) :
    Spaced { s with clock := now } := by
  refine ⟨spaced.pairs, fun attempt member => ?_, fun id past member => ?_, spaced.answered⟩
  · exact Int.le_trans (spaced.past attempt member) forward
  · exact (spaced.recent id past member).imp_left fun old => Int.lt_of_lt_of_le old forward

theorem spaced_finish (sound : Sound s) (before : Spaced s) {t : Task} (results : List NodeID)
    {now : Int} (forward : s.clock ≤ now) : Spaced (s.finishTask t results now) := by
  have spaced := spaced_later before forward
  cases t with
  | dial t =>
      have added := (add_spec sound.heap t.dest (now + dialHistoryExpiration)).1
      refine ⟨?_, ?_, ?_, ?_⟩
      · refine List.pairwise_append.mpr ⟨spaced.pairs, List.pairwise_singleton _ _, ?_⟩
        intro earlier _ later member id start same
        obtain rfl := List.mem_singleton.mp member
        cases same
      · intro attempt member
        rcases List.mem_append.mp member with old | new
        · exact spaced.past attempt old
        · obtain rfl := List.mem_singleton.mp new
          exact Int.le_refl now
      · intro id time member
        rcases List.mem_append.mp member with old | new
        · exact (spaced.recent id time old).imp_right fun kept => added.mem_iff.mpr (.tail _ kept)
        · obtain ⟨rfl, rfl⟩ := Attempt.ended.inj (List.mem_singleton.mp new)
          exact .inr (added.mem_iff.mpr (.head _))
      · intro id time member
        rcases List.mem_append.mp member with old | new
        · by_cases same : id = t.dest
          · subst same
            exact .inr ⟨now, List.mem_append_right _ (List.mem_singleton.mpr rfl),
              spaced.past _ old⟩
          · rcases spaced.answered id time old with dialing | ⟨later, ended, after⟩
            · obtain ⟨flags, found⟩ := (mem_keys_iff _ _).mp dialing
              refine .inl ((mem_keys_iff _ _).mpr ⟨flags, ?_⟩)
              change (s.dialer.dialing.erase t.dest).lookup id = _
              rw [lookup_erase_eq, if_neg same]
              exact found
            · exact .inr ⟨later, List.mem_append_left _ ended, after⟩
        · cases List.mem_singleton.mp new
  | discover => exact spaced_same spaced rfl rfl rfl (List.append_nil s.log)
  | waitExpire duration => exact spaced_same spaced rfl rfl rfl (List.append_nil s.log)

theorem spaced_receive (sound : Sound s) (spaced : Spaced s) {turn : Turn Name} {next : Reading}
    (forward : Forward s (.turn turn next)) :
    Spaced (s.receive cfg turn) ∧ (s.receive cfg turn).clock ≤ next.now := by
  cases turn with
  | addstatic n => exact ⟨spaced_same spaced rfl rfl rfl rfl, forward⟩
  | peerOp => exact ⟨spaced, forward⟩
  | taskdone t results now => exact ⟨spaced_finish sound spaced results forward.1, forward.2⟩
  | posthandshake c =>
      rw [Loop.receive]
      rcases checkpoint_cases cfg s (cfg.mark c) with same | ⟨_, passed⟩
      · rw [same]
        exact ⟨spaced, forward⟩
      · rw [passed]
        exact ⟨spaced_same spaced rfl rfl rfl rfl, forward⟩
  | addpeer c nodeType caps =>
      rw [Loop.receive]
      rcases add_peer_cases cfg s c nodeType caps with dropped | ⟨_, added⟩
      · rw [dropped]
        exact ⟨spaced_same spaced rfl rfl rfl rfl, forward⟩
      · rw [added]
        exact ⟨spaced_same spaced rfl rfl rfl rfl, forward⟩
  | delpeer p => exact ⟨spaced_same spaced rfl rfl rfl rfl, forward⟩

omit [LinearOrder Name] in
theorem spaced_new (cfg : Config Name) (clock : Int) : Spaced (newLoop cfg clock) :=
  ⟨List.Pairwise.nil, List.forall_mem_nil _, fun _ _ member => absurd member List.not_mem_nil,
    fun _ _ member => absurd member List.not_mem_nil⟩

/-- If the clock does not go back, a node is dialed again only when more than the time of the
history has passed since its last dial was asked for, and since it was done. The history is a
binary heap ordered by expiry. -/
theorem redials_apart (reached : Reached cfg Forward s) :
    s.log.Pairwise Apart ∧ IsHistory s.dialer.hist := by
  have invariant := reached_invariant (fun s => Sound s ∧ Spaced s)
    (fun first order => ⟨sound_schedule (sound_new cfg first.now) order,
      spaced_schedule (sound_new cfg first.now) (spaced_new cfg first.now) order
        (Int.le_refl first.now)⟩)
    (fun s turn next forward _ offers order held =>
      have sound := sound_receive held.1 offers
      have spaced := spaced_receive held.1 held.2 forward
      ⟨sound_schedule sound order, spaced_schedule sound spaced.1 order spaced.2⟩)
    (fun s c _ held => ⟨sound_same held.1 rfl rfl held.1.limit, spaced_same held.2 rfl rfl rfl rfl⟩)
    (fun s _ held => ⟨sound_same held.1 rfl rfl held.1.limit, spaced_same held.2 rfl rfl rfl rfl⟩)
    (fun s p _ _ held => ⟨sound_same held.1 rfl rfl held.1.limit, spaced_same held.2 rfl rfl rfl rfl⟩) reached
  exact ⟨invariant.2.pairs, invariant.1.heap⟩

theorem sampled_redials_apart :
    ∃ s, Reached sampleConfig Forward s ∧ s.log.length = 4 ∧ s.log.Pairwise Apart := by
  obtain ⟨s, reached, _, _, _, attempts⟩ := sample_ends
  have forward := reached_weaken (fun _ _ both => both.1) reached
  exact ⟨s, forward, attempts, (redials_apart forward).1⟩

end Redials

end PbftBlock.ServerLoop
