import PbftBlock.Library.BinaryHeap
import PbftBlock.Library.FiniteMaps
import PbftBlock.NodeKeys

/-!
# The dial scheduler

`dialstate` of `p2p/dial.go`. The loop of the server asks it for new tasks on every turn and
tells it of every task that is done. Nodes are known here by their identity only; times are
nanoseconds.

Ranging over the static nodes takes them in any order, and the table of nodes returns any
nodes, so both are arguments of `newTasks`.
-/

namespace PbftBlock.DialScheduler

open PbftBlock.Library PbftBlock.Library.FiniteMaps PbftBlock.NodeKeys

set_option autoImplicit false

section Transcription

def second : Int := 1000000000

def dialHistoryExpiration : Int := 30 * second

structure ConnFlag where
  dynDialed : Bool
  staticDialed : Bool
  inbound : Bool
  trusted : Bool
deriving DecidableEq

def dynDialedConn : ConnFlag := ⟨true, false, false, false⟩
def staticDialedConn : ConnFlag := ⟨false, true, false, false⟩
def inboundConn : ConnFlag := ⟨false, false, true, false⟩

structure Peer where
  id : NodeID
  flags : ConnFlag
  nodeType : UInt64
deriving DecidableEq

structure DialTask where
  flags : ConnFlag
  dest : NodeID
deriving DecidableEq

inductive Task where
  | dial (t : DialTask)
  | discover
  | waitExpire (duration : Int)
deriving DecidableEq

def Task.dest? : Task → Option NodeID
  | .dial t => some t.dest
  | .discover => none
  | .waitExpire _ => none

structure PastDial where
  id : NodeID
  exp : Int

abbrev DialHistory := Array PastDial

def DialHistory.add (hist : DialHistory) (id : NodeID) (exp : Int) : DialHistory :=
  BinaryHeap.push PastDial.exp hist ⟨id, exp⟩

def DialHistory.contains (hist : DialHistory) (id : NodeID) : Bool :=
  hist.toList.any fun past => past.id = id

/-- The loop of `expire`. Each turn takes an element off, so `fuel` as large as the history is
enough. -/
def DialHistory.expire (now : Int) : ℕ → DialHistory → DialHistory
  | 0, hist => hist
  | fuel + 1, hist =>
      match BinaryHeap.pop PastDial.exp hist with
      | none => hist
      | some (min, rest) => if min.exp < now then DialHistory.expire now fuel rest else hist

structure Dialer where
  maxDynDials : ℕ
  lookupRunning : Bool
  dialing : FiniteMap NodeID ConnFlag
  lookupBuf : List NodeID
  static : FiniteMap NodeID DialTask
  hist : DialHistory

def Dialer.addStatic (s : Dialer) (n : NodeID) : Dialer :=
  { s with static := s.static.insert n ⟨staticDialedConn, n⟩ }

def newDialState (static : List NodeID) (maxdyn : ℕ) : Dialer :=
  static.foldl Dialer.addStatic ⟨maxdyn, false, ∅, [], ∅, #[]⟩

/-- The dials that a call of `newTasks` has made so far, and `dialing` with them. -/
structure Plan where
  dialing : FiniteMap NodeID ConnFlag
  dials : List DialTask

abbrev StaticEntry := (_ : NodeID) × DialTask

section Plans

variable (peers : FiniteMap NodeID Peer) (hist : DialHistory)

def isDialing (plan : Plan) (id : NodeID) : Bool :=
  (plan.dialing.lookup id).isSome || (peers.lookup id).isSome || hist.contains id

def dialStatic (plan : Plan) (entry : StaticEntry) : Plan :=
  if isDialing peers hist plan entry.1 then plan
  else ⟨plan.dialing.insert entry.1 entry.2.flags, plan.dials ++ [entry.2]⟩

/-- `addDial` of a dynamic node, with the number of dials that are still needed. -/
def addDial (state : Plan × Int) (dest : NodeID) : Plan × Int :=
  if isDialing peers hist state.1 dest then state
  else (⟨state.1.dialing.insert dest dynDialedConn, state.1.dials ++ [⟨dynDialedConn, dest⟩]⟩,
    state.2 - 1)

def dialLookups : List NodeID → Plan × Int → (Plan × Int) × List NodeID
  | [], state => (state, [])
  | dest :: rest, state =>
      if 0 < state.2 then dialLookups rest (addDial peers hist state dest)
      else (state, dest :: rest)

end Plans

def Dialer.needDynDials (s : Dialer) (peers : FiniteMap NodeID Peer) : Int :=
  s.maxDynDials - (peers.entries.countP fun entry => entry.2.flags.dynDialed) -
    (s.dialing.entries.countP fun entry => entry.2.dynDialed)

/-- `newTasks` up to the dials: static nodes, then random nodes, then results of lookups. The
history has expired already. -/
def Dialer.plan (s : Dialer) (peers : FiniteMap NodeID Peer) (hist : DialHistory)
    (order : List StaticEntry) (random : List NodeID) : (Plan × Int) × List NodeID :=
  let need := s.needDynDials peers
  let static := order.foldl (dialStatic peers hist) ⟨s.dialing, []⟩
  let candidates := random.take (need.tdiv 2).toNat
  dialLookups peers hist s.lookupBuf (candidates.foldl (addDial peers hist) (static, need))

/-- The timer that keeps the loop of the server going. -/
def waitTasks (nRunning : ℕ) (tasks : List Task) (hist : DialHistory) (now : Int) : List Task :=
  if nRunning = 0 ∧ tasks = [] then
    (hist[0]?).toList.map fun min => .waitExpire (min.exp - now)
  else []

def Dialer.newTasks (s : Dialer) (nRunning : ℕ) (peers : FiniteMap NodeID Peer) (now : Int)
    (order : List StaticEntry) (random : List NodeID) : List Task × Dialer :=
  let hist := s.hist.expire now s.hist.size
  let planned := s.plan peers hist order random
  let lookup := decide ((planned.2.length : Int) < planned.1.2) && !s.lookupRunning
  let tasks := planned.1.1.dials.map .dial ++ if lookup then [.discover] else []
  (tasks ++ waitTasks nRunning tasks hist now,
    { s with
      dialing := planned.1.1.dialing
      lookupBuf := planned.2
      lookupRunning := s.lookupRunning || lookup
      hist := hist })

def Dialer.taskDone (s : Dialer) (t : Task) (results : List NodeID) (now : Int) : Dialer :=
  match t with
  | .dial t =>
      { s with
        hist := s.hist.add t.dest (now + dialHistoryExpiration)
        dialing := s.dialing.erase t.dest }
  | .discover =>
      { s with
        lookupRunning := false
        lookupBuf := s.lookupBuf ++ results }
  | .waitExpire _ => s

end Transcription

/-! ## The history -/

section History

variable {hist : DialHistory}

abbrev IsHistory (hist : DialHistory) : Prop := BinaryHeap.IsHeap PastDial.exp hist

theorem contains_iff (id : NodeID) :
    hist.contains id = true ↔ ∃ past ∈ hist.toList, past.id = id := by
  rw [DialHistory.contains, List.any_eq_true]
  simp only [decide_eq_true_eq]

theorem expire_spec (now : Int) (heap : IsHistory hist) {fuel : ℕ} (enough : hist.size ≤ fuel) :
    (DialHistory.expire now fuel hist).toList.Perm
        (hist.toList.filter fun past => now ≤ past.exp) ∧
      IsHistory (DialHistory.expire now fuel hist) := by
  induction fuel generalizing hist with
  | zero =>
      have empty : hist = #[] := Array.eq_empty_of_size_eq_zero (Nat.le_zero.mp enough)
      subst empty
      exact ⟨.refl _, heap⟩
  | succ fuel induction =>
      unfold DialHistory.expire
      by_cases some : 0 < hist.size
      · obtain ⟨rest, popped, perm, heap'⟩ := BinaryHeap.pop_spec heap some
        simp only [popped]
        by_cases old : (hist[0]).exp < now
        · rw [if_pos old]
          have smaller : rest.size ≤ fuel := by
            have lengths := perm.length_eq
            simp only [Array.length_toList, List.length_cons] at lengths
            omega
          obtain ⟨left, heap''⟩ := induction heap' smaller
          refine ⟨left.trans ?_, heap''⟩
          have filtered := perm.filter fun past => decide (now ≤ past.exp)
          rw [List.filter_cons_of_neg (by simpa using old)] at filtered
          exact filtered.symm
        · rw [if_neg old]
          refine ⟨?_, heap⟩
          -- the first dial is the one that expires first
          rw [List.filter_eq_self.mpr]
          intro past member
          have first := BinaryHeap.heap_first heap some (Array.mem_toList_iff.mp member)
          simp only [decide_eq_true_eq]
          omega
      · have empty : hist = #[] := Array.eq_empty_of_size_eq_zero (by omega)
        subst empty
        exact ⟨.refl _, heap⟩

theorem add_spec (heap : IsHistory hist) (id : NodeID) (exp : Int) :
    (hist.add id exp).toList.Perm (⟨id, exp⟩ :: hist.toList) ∧ IsHistory (hist.add id exp) :=
  ⟨BinaryHeap.push_perm _, BinaryHeap.push_heap heap _⟩

end History

/-! ## New dials -/

section Plans

variable {peers : FiniteMap NodeID Peer} {hist : DialHistory} {start : FiniteMap NodeID ConnFlag}
  {plan : Plan} {need : Int} {dest : NodeID}

def Plan.add (plan : Plan) (t : DialTask) : Plan :=
  ⟨plan.dialing.insert t.dest t.flags, plan.dials ++ [t]⟩

/-- The dials made since `dialing` was `start`: one for each node, and none for a node that is
connected, being dialed or in the history. -/
structure Planned (peers : FiniteMap NodeID Peer) (hist : DialHistory)
    (start : FiniteMap NodeID ConnFlag) (plan : Plan) : Prop where
  keys : plan.dialing.keys.Perm (plan.dials.map DialTask.dest ++ start.keys)
  fresh : ∀ t ∈ plan.dials, peers.lookup t.dest = none ∧ hist.contains t.dest = false
  flags : ∀ t ∈ plan.dials, plan.dialing.lookup t.dest = some t.flags
  kept : ∀ id flag, start.lookup id = some flag → plan.dialing.lookup id = some flag
  outward : ∀ t ∈ plan.dials, t.flags = dynDialedConn ∨ t.flags = staticDialedConn

theorem planned_start (peers : FiniteMap NodeID Peer) (hist : DialHistory)
    (start : FiniteMap NodeID ConnFlag) : Planned peers hist start ⟨start, []⟩ :=
  ⟨.refl _, List.forall_mem_nil _, List.forall_mem_nil _, fun _ _ found => found,
    List.forall_mem_nil _⟩

theorem not_dialing (idle : isDialing peers hist plan dest = false) :
    plan.dialing.lookup dest = none ∧ peers.lookup dest = none ∧ hist.contains dest = false := by
  simpa [isDialing, and_assoc] using idle

theorem planned_add (planned : Planned peers hist start plan) {t : DialTask}
    (idle : isDialing peers hist plan t.dest = false)
    (outward : t.flags = dynDialedConn ∨ t.flags = staticDialedConn) :
    Planned peers hist start (plan.add t) := by
  obtain ⟨absent, fresh⟩ := not_dialing idle
  have other {id : NodeID} {flag : ConnFlag} (found : plan.dialing.lookup id = some flag) :
      (plan.add t).dialing.lookup id = some flag := by
    have apart : id ≠ t.dest := by
      rintro rfl
      rw [absent] at found
      cases found
    rw [Plan.add, lookup_insert_eq, if_neg apart]
    exact found
  refine ⟨?_, ?_, ?_, fun id flag found => other (planned.kept id flag found), ?_⟩
  · rw [Plan.add, keys_insert_fresh absent, List.map_append, List.append_assoc,
      List.map_singleton, List.singleton_append]
    exact (planned.keys.cons _).trans List.perm_middle.symm
  · intro u member
    rcases List.mem_append.mp member with old | new
    · exact planned.fresh u old
    · obtain rfl := List.mem_singleton.mp new
      exact fresh
  · intro u member
    rcases List.mem_append.mp member with old | new
    · exact other (planned.flags u old)
    · obtain rfl := List.mem_singleton.mp new
      exact lookup_insert_self _ _ _
  · intro u member
    rcases List.mem_append.mp member with old | new
    · exact planned.outward u old
    · obtain rfl := List.mem_singleton.mp new
      exact outward

theorem planned_lookup (planned : Planned peers hist start plan) {id : NodeID} {flag : ConnFlag}
    (found : plan.dialing.lookup id = some flag) :
    start.lookup id = some flag ∨ ∃ t ∈ plan.dials, t.dest = id ∧ t.flags = flag := by
  have key := (mem_keys_iff plan.dialing id).mpr ⟨flag, found⟩
  rcases List.mem_append.mp (planned.keys.mem_iff.mp key) with new | old
  · obtain ⟨t, member, rfl⟩ := List.mem_map.mp new
    have flags := planned.flags t member
    rw [found] at flags
    exact .inr ⟨t, member, rfl, (Option.some.inj flags).symm⟩
  · obtain ⟨flag', found'⟩ := (mem_keys_iff start id).mp old
    have flags := planned.kept id flag' found'
    rw [found] at flags
    exact .inl (found'.trans flags.symm)

theorem planned_distinct (planned : Planned peers hist start plan) :
    (plan.dials.map DialTask.dest ++ start.keys).Nodup :=
  planned.keys.nodup_iff.mp plan.dialing.keys_nodup

def Plan.dynamic (plan : Plan) : ℕ := plan.dials.countP fun t => t.flags.dynDialed

theorem dynamic_add (t : DialTask) :
    (plan.add t).dynamic = plan.dynamic + if t.flags.dynDialed then 1 else 0 := by
  rw [Plan.add, Plan.dynamic, List.countP_append, List.countP_singleton]
  rfl

theorem is_dialing_add (t : DialTask) {id : NodeID} (dialing : isDialing peers hist plan id = true) :
    isDialing peers hist (plan.add t) id = true := by
  unfold isDialing Plan.add at *
  rw [lookup_insert_eq]
  split_ifs
  · rfl
  · exact dialing

def StaticEntry.Made (entry : StaticEntry) : Prop := entry.2 = ⟨staticDialedConn, entry.1⟩

theorem dial_static_cases (peers : FiniteMap NodeID Peer) (hist : DialHistory) (plan : Plan)
    {entry : StaticEntry} (made : entry.Made) :
    isDialing peers hist plan entry.1 = true ∧ dialStatic peers hist plan entry = plan ∨
      isDialing peers hist plan entry.2.dest = false ∧
        dialStatic peers hist plan entry = plan.add entry.2 := by
  unfold dialStatic
  cases dialing : isDialing peers hist plan entry.1 with
  | true => exact .inl ⟨rfl, rfl⟩
  | false =>
      obtain ⟨id, t⟩ := entry
      obtain rfl : t = ⟨staticDialedConn, id⟩ := made
      exact .inr ⟨dialing, rfl⟩

/-- All static nodes are taken care of, and no dynamic dial is made. -/
theorem statics_planned {order : List StaticEntry} (made : ∀ entry ∈ order, entry.Made)
    (planned : Planned peers hist start plan) :
    Planned peers hist start (order.foldl (dialStatic peers hist) plan) ∧
      (order.foldl (dialStatic peers hist) plan).dynamic = plan.dynamic ∧
      (∀ id, isDialing peers hist plan id = true →
        isDialing peers hist (order.foldl (dialStatic peers hist) plan) id = true) ∧
      ∀ entry ∈ order,
        isDialing peers hist (order.foldl (dialStatic peers hist) plan) entry.1 = true := by
  induction order generalizing plan with
  | nil => exact ⟨planned, rfl, fun _ dialing => dialing, List.forall_mem_nil _⟩
  | cons entry rest induction =>
      obtain ⟨first, others⟩ := List.forall_mem_cons.mp made
      rw [List.foldl_cons]
      rcases dial_static_cases peers hist plan first with
        ⟨dialing, same⟩ | ⟨idle, added⟩
      · rw [same]
        obtain ⟨planned', dynamic, keeps, all⟩ := induction others planned
        exact ⟨planned', dynamic, keeps, List.forall_mem_cons.mpr ⟨keeps _ dialing, all⟩⟩
      · rw [added]
        obtain ⟨planned', dynamic, keeps, all⟩ := induction others
          (planned_add planned idle (.inr (congrArg DialTask.flags first)))
        have mine : isDialing peers hist (plan.add entry.2) entry.1 = true := by
          unfold isDialing Plan.add
          rw [first, lookup_insert_self]
          rfl
        refine ⟨planned', ?_, fun id dialing => keeps id (is_dialing_add entry.2 dialing),
          List.forall_mem_cons.mpr ⟨keeps _ mine, all⟩⟩
        rw [dynamic, dynamic_add, first]
        rfl

theorem add_dial_cases (peers : FiniteMap NodeID Peer) (hist : DialHistory) (state : Plan × Int)
    (dest : NodeID) :
    addDial peers hist state dest = state ∨
      isDialing peers hist state.1 dest = false ∧
        addDial peers hist state dest = (state.1.add ⟨dynDialedConn, dest⟩, state.2 - 1) := by
  unfold addDial
  cases dialing : isDialing peers hist state.1 dest with
  | true => exact .inl rfl
  | false => exact .inr ⟨rfl, rfl⟩

/-- What a number of calls of `addDial` keeps: the dials and the number needed add up. -/
structure Advanced (peers : FiniteMap NodeID Peer) (hist : DialHistory) (before after : Plan × Int) :
    Prop where
  planned : ∀ start, Planned peers hist start before.1 → Planned peers hist start after.1
  sum : after.1.dynamic + after.2 = before.1.dynamic + before.2
  dialing : ∀ id, isDialing peers hist before.1 id = true → isDialing peers hist after.1 id = true
  longer : before.1.dials <+: after.1.dials

theorem advanced_refl (state : Plan × Int) : Advanced peers hist state state :=
  ⟨fun _ planned => planned, rfl, fun _ dialing => dialing, List.prefix_rfl⟩

theorem advanced_trans {first second third : Plan × Int} (early : Advanced peers hist first second)
    (late : Advanced peers hist second third) : Advanced peers hist first third :=
  ⟨fun start planned => late.planned start (early.planned start planned), late.sum.trans early.sum,
    fun id dialing => late.dialing id (early.dialing id dialing), early.longer.trans late.longer⟩

theorem add_dial_advanced (peers : FiniteMap NodeID Peer) (hist : DialHistory) (state : Plan × Int)
    (dest : NodeID) :
    Advanced peers hist state (addDial peers hist state dest) ∧
      state.2 - 1 ≤ (addDial peers hist state dest).2 := by
  rcases add_dial_cases peers hist state dest with same | ⟨idle, added⟩
  · rw [same]
    exact ⟨advanced_refl state, by omega⟩
  · rw [added]
    refine ⟨⟨fun start planned => planned_add planned idle (.inl rfl), ?_,
      fun id dialing => is_dialing_add _ dialing, List.prefix_append _ _⟩, Int.le_refl _⟩
    rw [dynamic_add]
    simp only [dynDialedConn, if_true]
    omega

theorem candidates_advanced (peers : FiniteMap NodeID Peer) (hist : DialHistory)
    (candidates : List NodeID) (state : Plan × Int) :
    Advanced peers hist state (candidates.foldl (addDial peers hist) state) ∧
      state.2 - candidates.length ≤ (candidates.foldl (addDial peers hist) state).2 := by
  induction candidates generalizing state with
  | nil => exact ⟨advanced_refl state, by simp⟩
  | cons dest rest induction =>
      obtain ⟨first, less⟩ := add_dial_advanced peers hist state dest
      obtain ⟨others, least⟩ := induction (addDial peers hist state dest)
      refine ⟨advanced_trans first others, ?_⟩
      rw [List.foldl_cons, List.length_cons]
      omega

/-- The loop over the results stops at the end of the buffer or when enough was dialed, and
never dials more than needed. -/
theorem lookups_advanced (peers : FiniteMap NodeID Peer) (hist : DialHistory) (buf : List NodeID)
    (state : Plan × Int) :
    Advanced peers hist state (dialLookups peers hist buf state).1 ∧
      (0 ≤ state.2 → 0 ≤ (dialLookups peers hist buf state).1.2) ∧
      (state.2 ≤ 0 → (dialLookups peers hist buf state).1 = state) ∧
      ((dialLookups peers hist buf state).2 = [] ∨ (dialLookups peers hist buf state).1.2 ≤ 0) := by
  induction buf generalizing state with
  | nil => exact ⟨advanced_refl state, fun least => least, fun _ => rfl, .inl rfl⟩
  | cons dest rest induction =>
      unfold dialLookups
      by_cases needed : 0 < state.2
      · rw [if_pos needed]
        obtain ⟨first, less⟩ := add_dial_advanced peers hist state dest
        obtain ⟨others, least, _, stopped⟩ := induction (addDial peers hist state dest)
        exact ⟨advanced_trans first others, fun _ => least (by omega),
          fun none => absurd needed (by omega), stopped⟩
      · rw [if_neg needed]
        exact ⟨advanced_refl state, fun least => least, fun _ => rfl, .inr (Int.not_lt.mp needed)⟩

end Plans

/-! ## New tasks -/

section Tasks

variable {s : Dialer} {now : Int} {order : List StaticEntry}

/-- What `newTasks` decides on: the dials, the number of dynamic dials that are still missing,
and the results of lookups that remain. -/
structure Decided (s : Dialer) (peers : FiniteMap NodeID Peer) (hist : DialHistory)
    (order : List StaticEntry) (decision : (Plan × Int) × List NodeID) : Prop where
  planned : Planned peers hist s.dialing decision.1.1
  sum : decision.1.1.dynamic + decision.1.2 = s.needDynDials peers
  bounded : 0 ≤ decision.1.2 ∨ decision.1.1.dynamic = 0
  tried : decision.2 = [] ∨ decision.1.2 ≤ 0
  statics : ∀ entry ∈ order, isDialing peers hist decision.1.1 entry.1 = true

theorem plan_decided (s : Dialer) (peers : FiniteMap NodeID Peer) (hist : DialHistory)
    (made : ∀ entry ∈ order, entry.Made) (random : List NodeID) : Decided s peers hist order (s.plan peers hist order random) := by
  unfold Dialer.plan
  extract_lets need static candidates
  obtain ⟨planned, dynamic, _, all⟩ := statics_planned made
    (planned_start peers hist s.dialing)
  have none : static.dynamic = 0 := dynamic
  have short : (candidates.length : Int) ≤ (need.tdiv 2).toNat := by
    exact_mod_cast List.length_take_le _ _
  obtain ⟨random, least⟩ := candidates_advanced peers hist candidates
    (static, need)
  generalize candidates.foldl (addDial peers hist) (static, need) = chosen at random least ⊢
  obtain ⟨looked, kept, idle, tried⟩ := lookups_advanced peers hist
    s.lookupBuf chosen
  have whole := advanced_trans random looked
  refine ⟨whole.planned _ planned, ?_, ?_, tried, fun entry member =>
    whole.dialing _ (all entry member)⟩
  · rw [whole.sum]
    dsimp only
    rw [none]
    omega
  · -- at most half of what is needed is taken from the table
    dsimp only at least
    by_cases positive : 0 ≤ need
    · have quotient : need.tdiv 2 = need / 2 := Int.tdiv_eq_ediv_of_nonneg positive
      left
      apply kept
      omega
    · have quotient : (need.tdiv 2).toNat = 0 := by
        have negative : need.tdiv 2 ≤ 0 := by
          rw [Int.tdiv_eq_ediv, show Int.sign 2 = 1 from rfl]
          split_ifs <;> omega
        omega
      right
      have sum := random.sum
      dsimp only at sum
      rw [idle (by omega)]
      omega

theorem wait_tasks_cases (nRunning : ℕ) (tasks : List Task) (hist : DialHistory) (now : Int) :
    waitTasks nRunning tasks hist now = [] ∨ nRunning = 0 ∧ tasks = [] ∧
      ∃ duration, waitTasks nRunning tasks hist now = [.waitExpire duration] := by
  unfold waitTasks
  split_ifs with idle
  · cases hist[0]? with
    | none => exact .inl rfl
    | some min => exact .inr ⟨idle.1, idle.2, _, rfl⟩
  · exact .inl rfl

theorem wait_tasks_none {hist : DialHistory} (none : waitTasks 0 [] hist now = []) :
    hist.toList = [] := by
  rw [waitTasks, if_pos ⟨rfl, rfl⟩, List.map_eq_nil_iff, Option.toList_eq_nil_iff,
    Array.getElem?_eq_none_iff] at none
  rw [Array.toList_eq_nil_iff, Array.eq_empty_of_size_eq_zero (Nat.le_zero.mp none)]

theorem new_tasks_spec (heap : IsHistory s.hist) (made : ∀ entry ∈ order, entry.Made)
    (nRunning : ℕ) (peers : FiniteMap NodeID Peer) (now : Int) (random : List NodeID) :
    ∃ decision hist lookup, Decided s peers hist order decision ∧ IsHistory hist ∧
      hist.toList.Perm (s.hist.toList.filter fun past => now ≤ past.exp) ∧
      (lookup = true ↔ (decision.2.length : Int) < decision.1.2 ∧ s.lookupRunning = false) ∧
      ∃ tasks, tasks = decision.1.1.dials.map .dial ++ (if lookup then [.discover] else []) ∧
        s.newTasks nRunning peers now order random =
          (tasks ++ waitTasks nRunning tasks hist now,
            { s with
              dialing := decision.1.1.dialing
              lookupBuf := decision.2
              lookupRunning := s.lookupRunning || lookup
              hist := hist }) := by
  obtain ⟨left, heap'⟩ := expire_spec now heap (Nat.le_refl s.hist.size)
  refine ⟨_, _, _, plan_decided s peers (s.hist.expire now s.hist.size) made random, heap', left, ?_,
    _, rfl, rfl⟩
  rw [Bool.and_eq_true, decide_eq_true_eq, Bool.not_eq_true']

end Tasks

end PbftBlock.DialScheduler
