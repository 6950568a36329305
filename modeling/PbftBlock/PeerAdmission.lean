import Mathlib.Data.Finset.Card
import PbftBlock.ServerLoop

/-!
# The peers of a server

How many peers the loop of the server admits, and which. The limit on dynamic peers is kept by
the scheduler, which counts the peers and the dials; the limit on all peers by the checks after
the handshakes. Both count the map of the loop. A connection of an exempt type may take the place
of a peer in it that goes on running.
-/

namespace PbftBlock.PeerAdmission

open PbftBlock.DialScheduler PbftBlock.Library PbftBlock.Library.FiniteMaps
  PbftBlock.Library.GuardedRuns PbftBlock.NodeKeys PbftBlock.ServerLoop PbftBlock.SubProtocols

set_option autoImplicit false

variable {Name : Type} [LinearOrder Name]

/-! ## Dynamic peers -/

section Dynamic

variable {cfg : Config Name} {s : Loop}

def passing {Value : Type} (test : Value → Bool) (map : FiniteMap NodeID Value) : List NodeID :=
  (map.entries.filter fun entry => test entry.2).map Sigma.fst

theorem mem_passing {Value : Type} (test : Value → Bool) (map : FiniteMap NodeID Value)
    (id : NodeID) : id ∈ passing test map ↔ ∃ value, map.lookup id = some value ∧ test value = true := by
  unfold passing
  rw [List.mem_map]
  constructor
  · rintro ⟨⟨key, value⟩, member, rfl⟩
    obtain ⟨stored, passed⟩ := List.mem_filter.mp member
    exact ⟨value, AList.mem_lookup_iff.mpr stored, passed⟩
  · rintro ⟨value, found, passed⟩
    exact ⟨⟨id, value⟩, List.mem_filter.mpr ⟨AList.mem_lookup_iff.mp found, passed⟩, rfl⟩

theorem passing_length {Value : Type} (test : Value → Bool) (map : FiniteMap NodeID Value) :
    (passing test map).length = map.entries.countP fun entry => test entry.2 := by
  rw [passing, List.length_map, List.countP_eq_length_filter]

/-- The nodes that are dynamic peers or are being dialed as such. -/
def dynamicNodes (s : Loop) : Finset NodeID :=
  (passing (fun p : Peer => p.flags.dynDialed) s.peers ++
    passing ConnFlag.dynDialed s.dialer.dialing).toFinset

theorem mem_dynamic (s : Loop) (id : NodeID) :
    id ∈ dynamicNodes s ↔ (∃ p, s.peers.lookup id = some p ∧ p.flags.dynDialed = true) ∨
      ∃ flags, s.dialer.dialing.lookup id = some flags ∧ flags.dynDialed = true := by
  rw [dynamicNodes, List.mem_toFinset, List.mem_append, mem_passing, mem_passing]

theorem dynamic_card (s : Loop) :
    ((dynamicNodes s).card : Int) ≤ s.dialer.maxDynDials - s.dialer.needDynDials s.peers := by
  have short := List.toFinset_card_le (passing (fun p : Peer => p.flags.dynDialed) s.peers ++
    passing ConnFlag.dynDialed s.dialer.dialing)
  rw [List.length_append, passing_length, passing_length] at short
  unfold dynamicNodes Dialer.needDynDials
  omega

/-- A dynamic connection is set up by a dial that is running. -/
structure Dialed (s : Loop) : Prop where
  conns : ∀ c ∈ s.handshaking, c.flags.dynDialed = true →
    c.flags.inbound = false ∧
      ∃ flags, .dial ⟨flags, c.id⟩ ∈ s.runningTasks ∧ flags.dynDialed = true
  bound : (dynamicNodes s).card ≤ s.dialer.maxDynDials

theorem dialed_same {after : Loop} (dialed : Dialed s)
    (handshaking : after.handshaking ⊆ s.handshaking)
    (running : after.runningTasks = s.runningTasks)
    (dialing : after.dialer.dialing = s.dialer.dialing)
    (limit : after.dialer.maxDynDials = s.dialer.maxDynDials)
    (peers : ∀ id p, after.peers.lookup id = some p → p.flags.dynDialed = true → id ∈ dynamicNodes s) :
    Dialed after := by
  refine ⟨fun c member => ?_, ?_⟩
  · rw [running]
    exact dialed.conns c (handshaking member)
  · rw [limit]
    refine Nat.le_trans (Finset.card_le_card fun id member => ?_) dialed.bound
    rcases (mem_dynamic after id).mp member with ⟨p, found, dynamic⟩ | found
    · exact peers id p found dynamic
    · rw [dialing] at found
      exact (mem_dynamic s id).mpr (.inr found)

theorem dynamic_peer (id : NodeID) (p : Peer) (found : s.peers.lookup id = some p)
    (dynamic : p.flags.dynDialed = true) : id ∈ dynamicNodes s :=
  (mem_dynamic s id).mpr (.inl ⟨p, found, dynamic⟩)

theorem erased_peer (p : Peer) (id : NodeID) (other : Peer)
    (found : (s.delPeer p).peers.lookup id = some other) (dynamic : other.flags.dynDialed = true) :
    id ∈ dynamicNodes s := by
  change (s.peers.erase p.id).lookup id = some other at found
  rw [lookup_erase_eq] at found
  split_ifs at found
  exact dynamic_peer id other found dynamic

theorem dialed_schedule (sound : Sound s) (dialed : Dialed s) {r : Reading}
    (order : r.order.Perm s.dialer.static.entries) : Dialed (s.scheduleTasks r) := by
  obtain ⟨peers, handshaking, _, _, running⟩ := schedule_frame s r
  refine ⟨fun c member dynamic => ?_, ?_⟩
  · rw [handshaking] at member
    obtain ⟨outbound, flags, task, same⟩ := dialed.conns c member dynamic
    exact ⟨outbound, flags, running.subset task, same⟩
  · cases schedule_scheduled sound order with
    | full tasks dialer clock log all =>
        have same : dynamicNodes (s.scheduleTasks r) = dynamicNodes s := by
          rw [dynamicNodes, peers, dialer, dynamicNodes]
        rw [same, dialer]
        exact dialed.bound
    | room decision hist lookup new decided heap left launched kinds waits tasks dialer clock log =>
        have fewer : dynamicNodes (s.scheduleTasks r) ⊆ dynamicNodes s ∪
            ((decision.1.1.dials.filter fun t => t.flags.dynDialed).map DialTask.dest).toFinset := by
          intro id member
          rw [Finset.mem_union, List.mem_toFinset, List.mem_map]
          rcases (mem_dynamic _ id).mp member with ⟨p, found, dynamic⟩ | ⟨flags, found, dynamic⟩
          · rw [peers] at found
            exact .inl (dynamic_peer id p found dynamic)
          · rw [dialer] at found
            rcases planned_lookup decided.planned found with old | ⟨t, dial, rfl, rfl⟩
            · exact .inl ((mem_dynamic s id).mpr (.inr ⟨flags, old, dynamic⟩))
            · exact .inr ⟨t, List.mem_filter.mpr ⟨dial, dynamic⟩, rfl⟩
        have sizes := Finset.card_le_card fewer
        have union := Finset.card_union_le (dynamicNodes s)
          ((decision.1.1.dials.filter fun t => t.flags.dynDialed).map DialTask.dest).toFinset
        have short := List.toFinset_card_le
          ((decision.1.1.dials.filter fun t => t.flags.dynDialed).map DialTask.dest)
        rw [List.length_map, ← List.countP_eq_length_filter] at short
        have before := dynamic_card s
        have bound := dialed.bound
        have sum := decided.sum
        have limit : (s.scheduleTasks r).dialer.maxDynDials = s.dialer.maxDynDials := by
          rw [dialer]
        unfold Plan.dynamic at sum
        rw [limit]
        rcases decided.bounded with least | none
        · omega
        · unfold Plan.dynamic at none
          omega

omit [LinearOrder Name] in
theorem mark_flags (cfg : Config Name) (c : Conn) :
    (cfg.mark c).id = c.id ∧ (cfg.mark c).flags.dynDialed = c.flags.dynDialed ∧
      (cfg.mark c).flags.inbound = c.flags.inbound ∧
      (cfg.mark c).flags.staticDialed = c.flags.staticDialed := by
  unfold Config.mark
  split_ifs
  · exact ⟨rfl, rfl, rfl, rfl⟩
  · exact ⟨rfl, rfl, rfl, rfl⟩

theorem dialed_finish (dialed : Dialed s) {t : Task} {results : List NodeID} {now : Int}
    (waits : ∀ c ∈ s.handshaking, t.dest? = some c.id → c.flags.inbound = true) :
    Dialed (s.finishTask t results now) := by
  refine ⟨fun c member dynamic => ?_, ?_⟩
  · obtain ⟨outbound, flags, task, same⟩ := dialed.conns c member dynamic
    refine ⟨outbound, flags, (List.mem_erase_of_ne ?_).mpr task, same⟩
    rintro rfl
    rw [waits c member rfl] at outbound
    cases outbound
  · have limit : (s.finishTask t results now).dialer.maxDynDials = s.dialer.maxDynDials := by
      cases t with
      | dial t => rfl
      | discover => rfl
      | waitExpire duration => rfl
    rw [limit]
    refine Nat.le_trans (Finset.card_le_card fun id member => ?_) dialed.bound
    rcases (mem_dynamic _ id).mp member with peer | ⟨flags, found, dynamic⟩
    · exact (mem_dynamic s id).mpr (.inl peer)
    · refine (mem_dynamic s id).mpr (.inr ⟨flags, ?_, dynamic⟩)
      cases t with
      | dial t =>
          change (s.dialer.dialing.erase t.dest).lookup id = _ at found
          rw [lookup_erase_eq] at found
          split_ifs at found
          exact found
      | discover => exact found
      | waitExpire duration => exact found

theorem dialed_receive (sound : Sound s) (dialed : Dialed s) {turn : Turn Name}
    (offers : s.Offers turn) : Dialed (s.receive cfg turn) := by
  cases turn with
  | addstatic n => exact dialed_same dialed (List.Subset.refl _) rfl rfl rfl dynamic_peer
  | peerOp => exact dialed
  | taskdone t results now => exact dialed_finish dialed offers.2
  | posthandshake c =>
      rw [Loop.receive]
      rcases checkpoint_cases cfg s (cfg.mark c) with same | ⟨_, passed⟩
      · rw [same]
        exact dialed
      · rw [passed]
        refine ⟨fun other member dynamic => ?_, dialed.bound⟩
        rcases List.mem_cons.mp member with rfl | old
        · obtain ⟨id, dyn, inbound, _⟩ := mark_flags cfg c
          rw [dyn] at dynamic
          rw [id, inbound]
          rcases offers with accepted | ⟨task, _⟩
          · rw [accepted] at dynamic
            cases dynamic
          · refine ⟨?_, c.flags, task, dynamic⟩
            rcases (sound.flags _ (List.mem_append_left _ task)).2 with kind | kind
            · exact congrArg ConnFlag.inbound kind
            · exact congrArg ConnFlag.inbound kind
        · exact dialed.conns other old dynamic
  | addpeer c nodeType caps =>
      rw [Loop.receive]
      rcases add_peer_cases cfg s c nodeType caps with dropped | ⟨_, added⟩
      · rw [dropped]
        exact dialed_same dialed List.erase_subset rfl rfl rfl dynamic_peer
      · rw [added]
        refine dialed_same dialed List.erase_subset rfl rfl rfl fun id p found dynamic => ?_
        change (s.peers.insert c.id _).lookup id = some p at found
        rw [lookup_insert_eq] at found
        split_ifs at found with same
        · -- the node is still being dialed
          obtain rfl := Option.some.inj found
          obtain ⟨_, flags, task, dyn⟩ := dialed.conns c offers dynamic
          have dialing := (sound.flags _ (List.mem_append_left _ task)).1
          rw [same]
          exact (mem_dynamic s c.id).mpr (.inr ⟨flags, dialing, dyn⟩)
        · exact dynamic_peer id p found dynamic
  | delpeer p => exact dialed_same dialed (List.Subset.refl _) rfl rfl rfl (erased_peer p)

theorem limit_schedule (sound : Sound s) {r : Reading}
    (order : r.order.Perm s.dialer.static.entries) :
    (s.scheduleTasks r).dialer.maxDynDials = s.dialer.maxDynDials := by
  cases schedule_scheduled sound order with
  | full tasks dialer clock log all => rw [dialer]
  | room decision hist lookup new decided heap left launched kinds waits tasks dialer clock log =>
      rw [dialer]

theorem limit_receive (s : Loop) (turn : Turn Name) :
    (s.receive cfg turn).dialer.maxDynDials = s.dialer.maxDynDials := by
  cases turn with
  | addstatic n => rfl
  | peerOp => rfl
  | taskdone t results now =>
      cases t with
      | dial t => rfl
      | discover => rfl
      | waitExpire duration => rfl
  | posthandshake c =>
      rw [Loop.receive]
      rcases checkpoint_cases cfg s (cfg.mark c) with same | ⟨_, passed⟩
      · rw [same]
      · rw [passed]
  | addpeer c nodeType caps =>
      rw [Loop.receive]
      rcases add_peer_cases cfg s c nodeType caps with dropped | ⟨_, added⟩
      · rw [dropped]
        rfl
      · rw [added]
        rfl
  | delpeer p => rfl

/-- No more nodes are dynamic peers in the map or on the way to be one than half of the peers that
are allowed, rounded up, and none without discovery. -/
theorem dynamic_peers_bounded {allowed : Loop → Event Name → Prop}
    (reached : Reached cfg allowed s) : (dynamicNodes s).card ≤ cfg.dynPeers := by
  have start (clock : Int) : Dialed (newLoop cfg clock) := by
    obtain ⟨_, dialing, _⟩ := new_dialer cfg clock
    refine ⟨fun c member => absurd member List.not_mem_nil, ?_⟩
    rw [dynamicNodes, dialing]
    exact Nat.zero_le _
  have invariant := reached_invariant
    (fun s => (Sound s ∧ Dialed s) ∧ s.dialer.maxDynDials = cfg.dynPeers)
    (fun first order =>
      ⟨⟨sound_schedule (sound_new cfg first.now) order,
        dialed_schedule (sound_new cfg first.now) (start first.now) order⟩,
        (limit_schedule (sound_new cfg first.now) order).trans (new_dialer cfg first.now).2.2.2.2⟩)
    (fun s turn next _ _ offers order held =>
      have sound := sound_receive held.1.1 offers
      ⟨⟨sound_schedule sound order,
        dialed_schedule sound (dialed_receive held.1.1 held.1.2 offers) order⟩,
        (limit_schedule sound order).trans ((limit_receive s turn).trans held.2)⟩)
    (fun s c _ held => ⟨⟨sound_same held.1.1 rfl rfl held.1.1.limit,
      dialed_same held.1.2 List.erase_subset rfl rfl rfl dynamic_peer⟩, held.2⟩)
    (fun s _ held => ⟨⟨sound_same held.1.1 rfl rfl held.1.1.limit,
      dialed_same held.1.2 (List.Subset.refl _) rfl rfl rfl dynamic_peer⟩, held.2⟩)
    (fun s p _ _ held => ⟨⟨sound_same held.1.1 rfl rfl held.1.1.limit,
      dialed_same held.1.2 (List.Subset.refl _) rfl rfl rfl (erased_peer p)⟩, held.2⟩) reached
  exact Nat.le_trans invariant.1.2.bound (Nat.le_of_eq invariant.2)

theorem sampled_dynamic_bound :
    ∃ s, Reached sampleConfig Typed s ∧ s.live.length = 2 ∧ (dynamicNodes s).card ≤ 1 := by
  obtain ⟨s, reached, _, _, peers, _⟩ := sample_ends
  have typed := reached_weaken (fun _ _ both => both.2) reached
  exact ⟨s, typed, peers, dynamic_peers_bounded typed⟩

end Dynamic

/-! ## Peers -/

section Peers

variable {cfg : Config Name} {s : Loop}

/-- A peer that neither its flags nor the type that it claims exempt from the limit. -/
def ordinary (p : Peer) : Bool :=
  !p.flags.trusted && !p.flags.staticDialed && !exempt p.nodeType

omit [LinearOrder Name] in
theorem enc_checks_passed {peers : FiniteMap NodeID Peer} {c : Conn}
    (passed : encHandshakeChecks cfg peers c = none) :
    (c.flags.trusted = false → c.flags.staticDialed = false →
        peers.entries.length < cfg.maxPeers) ∧
      peers.lookup c.id = none ∧ c.id ≠ cfg.self := by
  unfold encHandshakeChecks at passed
  split_ifs at passed with many known self
  refine ⟨fun distrusted dynamic => ?_, by simpa using known, self⟩
  rw [distrusted, dynamic] at many
  simpa using many

theorem proto_checks_passed {peers : FiniteMap NodeID Peer} {c : Conn} {nodeType : UInt64}
    {caps : List (Cap Name)} (bound : exempt nodeType = false)
    (passed : protoHandshakeChecks cfg peers c nodeType caps = none) :
    encHandshakeChecks cfg peers c = none := by
  rw [protoHandshakeChecks, if_neg (by rw [bound]; decide)] at passed
  split_ifs at passed
  exact passed

def ordinaryPeers (s : Loop) : ℕ := s.peers.entries.countP fun entry => ordinary entry.2

theorem erased_ordinary (s : Loop) (id : NodeID) :
    (s.peers.erase id).entries.countP (fun entry => ordinary entry.2) ≤ ordinaryPeers s :=
  (List.kerase_sublist id s.peers.entries).countP_le

theorem ordinary_add {c : Conn} {nodeType : UInt64} {caps : List (Cap Name)}
    (passed : protoHandshakeChecks cfg s.peers c nodeType caps = none)
    (bound : ordinaryPeers s ≤ cfg.maxPeers) :
    ordinaryPeers (s.insertPeer ⟨c.id, c.flags, nodeType⟩) ≤ cfg.maxPeers := by
  have others := erased_ordinary s c.id
  have entries : ordinaryPeers (s.insertPeer ⟨c.id, c.flags, nodeType⟩) =
      (s.peers.erase c.id).entries.countP (fun entry => ordinary entry.2) +
        if ordinary ⟨c.id, c.flags, nodeType⟩ then 1 else 0 := by
    change (s.peers.insert c.id _).entries.countP _ = _
    rw [AList.entries_insert, List.countP_cons]
    rfl
  rw [entries]
  split_ifs with counted
  · simp only [ordinary, Bool.and_eq_true, Bool.not_eq_true'] at counted
    obtain ⟨⟨distrusted, dynamic⟩, named⟩ := counted
    have room := (enc_checks_passed (proto_checks_passed named passed)).1 distrusted dynamic
    have fewer : (s.peers.erase c.id).entries.countP (fun entry => ordinary entry.2) ≤
        s.peers.entries.length :=
      Nat.le_trans others List.countP_le_length
    omega
  · omega

/-- The limit holds for the peers in the map that are not exempt from it, whatever the others do. -/
theorem ordinary_peers_bounded {allowed : Loop → Event Name → Prop}
    (reached : Reached cfg allowed s) : ordinaryPeers s ≤ cfg.maxPeers := by
  have frame (s : Loop) (r : Reading) : ordinaryPeers (s.scheduleTasks r) = ordinaryPeers s := by
    rw [ordinaryPeers, (schedule_frame s r).1, ordinaryPeers]
  refine reached_invariant (fun s => ordinaryPeers s ≤ cfg.maxPeers) (fun first _ => ?_)
    (fun s turn next _ _ _ _ held => ?_) (fun s c _ held => held) (fun s _ held => held)
    (fun s p _ _ held => Nat.le_trans (erased_ordinary s p.id) held) reached
  · rw [frame]
    exact Nat.zero_le _
  · rw [frame]
    cases turn with
    | addstatic n => exact held
    | peerOp => exact held
    | taskdone t results now => exact held
    | posthandshake c =>
        rw [Loop.receive]
        rcases checkpoint_cases cfg s (cfg.mark c) with same | ⟨_, passed⟩
        · rw [same]
          exact held
        · rw [passed]
          exact held
    | addpeer c nodeType caps =>
        rw [Loop.receive]
        rcases add_peer_cases cfg s c nodeType caps with dropped | ⟨passed, added⟩
        · rw [dropped]
          exact held
        · rw [added]
          exact ordinary_add (s := s.dropConn c) passed held
    | delpeer p => exact Nat.le_trans (erased_ordinary s p.id) held

theorem sampled_ordinary_bound :
    ∃ s, Reached sampleConfig Typed s ∧ s.live.length = 2 ∧ ordinaryPeers s ≤ 2 := by
  obtain ⟨s, reached, _, _, peers, _⟩ := sample_ends
  have typed := reached_weaken (fun _ _ both => both.2) reached
  exact ⟨s, typed, peers, ordinary_peers_bounded typed⟩

structure Matched (cfg : Config Name) (s : Loop) : Prop where
  ids : (s.live.map Peer.id).Perm s.peers.keys
  known : ∀ p ∈ s.live, s.peers.lookup p.id = some p
  others : ∀ p ∈ s.live, p.id ≠ cfg.self
  stopped : s.phase = .stopped → s.peers.entries = []

omit [LinearOrder Name] in
theorem matched_same {after : Loop} (matched : Matched cfg s) (peers : after.peers = s.peers)
    (live : after.live = s.live) (phase : after.phase = s.phase) : Matched cfg after := by
  refine ⟨?_, ?_, ?_, ?_⟩
  · rw [peers, live]
    exact matched.ids
  · rw [peers, live]
    exact matched.known
  · rw [live]
    exact matched.others
  · rw [peers, phase]
    exact matched.stopped

omit [LinearOrder Name] in
theorem matched_insert (matched : Matched cfg s) {p : Peer} (running : s.phase = .running)
    (fresh : s.peers.lookup p.id = none) (other : p.id ≠ cfg.self) :
    Matched cfg (s.insertPeer p) := by
  refine ⟨?_, fun q member => ?_, fun q member => ?_, fun stopped => ?_⟩
  · change (p.id :: s.live.map Peer.id).Perm (s.peers.insert p.id p).keys
    rw [keys_insert_fresh fresh]
    exact matched.ids.cons _
  · change (s.peers.insert p.id p).lookup q.id = some q
    rw [lookup_insert_eq]
    rcases List.mem_cons.mp member with rfl | old
    · exact if_pos rfl
    · have found := matched.known q old
      rw [if_neg]
      · exact found
      · intro same
        rw [same, fresh] at found
        cases found
  · rcases List.mem_cons.mp member with rfl | old
    · exact other
    · exact matched.others q old
  · rw [show (s.insertPeer p).phase = s.phase from rfl, running] at stopped
    cases stopped

omit [LinearOrder Name] in
theorem matched_remove (matched : Matched cfg s) {p : Peer} (live : p ∈ s.live)
    (going : s.phase ≠ .stopped) : Matched cfg (s.delPeer p) := by
  have found := matched.known p live
  have ids : (p.id :: (s.live.erase p).map Peer.id).Perm (p.id :: (s.peers.erase p.id).keys) :=
    ((List.perm_cons_erase live).map Peer.id).symm.trans
      (matched.ids.trans (keys_erase_perm found))
  have distinct := (((List.perm_cons_erase live).map Peer.id).symm.trans matched.ids).nodup_iff.mpr
    s.peers.keys_nodup
  refine ⟨ids.cons_inv, fun q member => ?_, fun q member => ?_, fun stopped => absurd stopped going⟩
  · change (s.peers.erase p.id).lookup q.id = some q
    rw [lookup_erase_eq, if_neg]
    · exact matched.known q (List.mem_of_mem_erase member)
    · intro same
      refine (List.nodup_cons.mp distinct).1 ?_
      rw [← same]
      exact List.mem_map_of_mem member
  · exact matched.others q (List.mem_of_mem_erase member)

omit [LinearOrder Name] in
theorem matched_stop (matched : Matched cfg s) : Matched cfg s.stop := by
  refine ⟨matched.ids, matched.known, matched.others, fun stopped => ?_⟩
  change (if s.peers.entries = [] then Phase.stopped else .stopping) = .stopped at stopped
  split_ifs at stopped with empty
  exact empty

theorem matched_receive (matched : Matched cfg s) {turn : Turn Name} {next : Reading}
    (typed : Typed s (.turn turn next)) (running : s.phase = .running) (offers : s.Offers turn) :
    Matched cfg (s.receive cfg turn) := by
  cases turn with
  | addstatic n => exact matched_same matched rfl rfl rfl
  | peerOp => exact matched
  | taskdone t results now => exact matched_same matched rfl rfl rfl
  | posthandshake c =>
      rw [Loop.receive]
      rcases checkpoint_cases cfg s (cfg.mark c) with same | ⟨_, passed⟩
      · rw [same]
        exact matched
      · rw [passed]
        exact matched_same matched rfl rfl rfl
  | addpeer c nodeType caps =>
      have dropped : Matched cfg (s.dropConn c) :=
        matched_same matched rfl rfl rfl
      rw [Loop.receive]
      rcases add_peer_cases cfg s c nodeType caps with same | ⟨passed, added⟩
      · rw [same]
        exact dropped
      · rw [added]
        obtain ⟨_, fresh, other⟩ := enc_checks_passed (proto_checks_passed typed passed)
        exact matched_insert dropped running fresh other
  | delpeer p => exact matched_remove matched offers (by rw [running]; decide)

theorem matched_reached (reached : Reached cfg Typed s) : Matched cfg s := by
  have frame {s : Loop} (matched : Matched cfg s) (r : Reading) : Matched cfg (s.scheduleTasks r) := by
    obtain ⟨peers, _, live, phase, _⟩ := schedule_frame s r
    exact matched_same matched peers live phase
  refine reached_invariant (Matched cfg) (fun first _ => frame ?_ first)
    (fun s turn next typed running offers _ matched =>
      frame (matched_receive matched typed running offers) next)
    (fun s c _ matched => matched_same matched rfl rfl rfl)
    (fun s _ matched => matched_stop matched)
    (fun s p stopping live matched =>
      matched_stop (matched_remove matched live (by rw [stopping]; decide))) reached
  exact ⟨.nil, List.forall_mem_nil _, List.forall_mem_nil _, fun _ => rfl⟩

/-- As long as no connection claims a type that passes without the checks: the server knows
exactly the peers that run, each identity runs once, the server is not its own peer, and none
runs when the server has stopped. -/
theorem peers_are_those_running (reached : Reached cfg Typed s) :
    (s.live.map Peer.id).Nodup ∧ (∀ p, p ∈ s.live ↔ s.peers.lookup p.id = some p) ∧
      (∀ p ∈ s.live, p.id ≠ cfg.self) ∧ (s.phase = .stopped → s.live = []) := by
  have matched := matched_reached reached
  refine ⟨matched.ids.nodup_iff.mpr s.peers.keys_nodup, fun p => ⟨matched.known p, fun found => ?_⟩,
    matched.others, fun stopped => ?_⟩
  · have key := matched.ids.mem_iff.mpr ((mem_keys_iff _ _).mpr ⟨p, found⟩)
    obtain ⟨q, live, same⟩ := List.mem_map.mp key
    have other := matched.known q live
    rw [same, found] at other
    obtain rfl := Option.some.inj other
    exact live
  · have ids := matched.ids
    rw [AList.keys, matched.stopped stopped] at ids
    exact List.map_eq_nil_iff.mp ids.eq_nil

theorem sampled_peers_running :
    ∃ s, Reached sampleConfig Typed s ∧ s.live.length = 2 ∧
      ∀ p, p ∈ s.live ↔ s.peers.lookup p.id = some p := by
  obtain ⟨s, reached, _, _, peers, _⟩ := sample_ends
  have typed := reached_weaken (fun _ _ both => both.2) reached
  exact ⟨s, typed, peers, (peers_are_those_running typed).2.1⟩

end Peers

end PbftBlock.PeerAdmission
