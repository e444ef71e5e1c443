import HiImCore.Hub.Admission
import HiImCore.Hub.PlaneSteps

/-! The queues that messages, frames and connections are sent to. The index that a frame
carries is that of the reactor which registered its session. -/

namespace HiImCore.Hub

open Pipeline Replay Transition

def Housed (cfg : HubConfig) (p : Plane) (history : List Entry) (sid : Nat) (idx : Int) : Prop :=
  ∃ i : Nat, idx = i ∧ i < cfg.reactors ∧ ∃ fd, (p, .registered i ⟨fd, sid⟩) ∈ history

section Indices

variable {cfg : HubConfig} {p : Plane} {history more : List Entry} {sid : Nat} {idx : Int}

theorem Housed.mono (housed : Housed cfg p history sid idx) (within : ∀ x ∈ history, x ∈ more) :
    Housed cfg p more sid idx := by
  obtain ⟨i, same, inside, fd, member⟩ := housed
  exact ⟨i, same, inside, fd, within _ member⟩

theorem Housed.inRange (housed : Housed cfg p history sid idx) :
    0 ≤ idx ∧ idx < max 1 cfg.reactorThreads := by
  obtain ⟨i, rfl, inside, _⟩ := housed
  unfold HubConfig.reactors at inside
  omega

theorem Housed.index (housed : Housed cfg p history sid idx) :
    queueIndex cfg.reactors idx = some idx.toNat := by
  obtain ⟨i, rfl, inside, _⟩ := housed
  unfold queueIndex
  rw [if_pos (by omega)]

theorem queueIndex_pickReactor (cfg : HubConfig) (n : UInt64) :
    queueIndex cfg.reactors (pickReactor cfg n) = some (n.toNat % cfg.reactors) := by
  have positive : 0 < cfg.reactors := by
    unfold HubConfig.reactors
    omega
  have below := Nat.mod_lt n.toNat positive
  unfold queueIndex pickReactor
  rw [if_pos ⟨by omega, by omega⟩, Int.toNat_natCast]

end Indices

section Frames

variable {cfg : HubConfig} {wakeFd : Plane → Nat → Int}
  {taken : List (Taken HubServer Action Entry)} {h : HubServer} {p q : Plane}

theorem ReactorEffect.registers {i j : Nat} {pl : PlaneState} {events : List Event} {t : Traffic}
    {conn : NewConnection} (effect : ReactorEffect cfg i pl events t)
    (seen : .registered j conn ∈ events) : j = i := by
  cases effect with
  | registered conn => exact (Event.registered.inj (List.mem_singleton.mp seen)).1
  | system pops flag answered => cases answered <;> simp at seen
  | sent front found => split at seen <;> simp at seen
  | _ => simp at seen

theorem registered_inside (run : HubRun cfg wakeFd taken h) {i : Nat} {conn : NewConnection}
    (seen : (p, .registered i conn) ∈ trace taken) : i < cfg.reactors := by
  obtain ⟨before, later, split⟩ := List.append_of_mem seen
  obtain ⟨front, x, back, first, last, rfl, inside, _⟩ := trace_split split
  obtain ⟨earlier, post, step⟩ := run.at
  have member : (p, .registered i conn) ∈ x.events := by
    rw [inside]
    simp
  obtain ⟨j, input, pl, events, act, _, _, here, effect⟩ :=
    (hubRun_effect earlier step).of_reactor member rfl
  rw [effect.registers here]
  rw [act] at step
  simp only [hubSystem, hubStep] at step
  split at step
  · cases step
  · split at step
    · assumption
    · cases step

theorem live_housed (run : HubRun cfg wakeFd taken h) {history : List Entry}
    (within : ∀ x ∈ history, x ∈ trace taken) (legal : Registry.Legal .empty (onPlane p history))
    {i sid : Nat} {id : Ident} (live : (after (onPlane p history)).conn sid = .live i id) :
    Housed cfg p history sid i := by
  obtain ⟨fd, registered⟩ := live_registered legal live
  have member := mem_onPlane.mp registered
  exact ⟨i, rfl, registered_inside run (within _ member), fd, member⟩

theorem lookup_housed (run : HubRun cfg wakeFd taken h) {history : List Entry}
    (front : history <+: trace taken) {e : Event} {o : Origin} {ds : List Dest} {d : Dest}
    (seen : (p, e) ∈ history) (looks : outward e = some (.expanded o ds)) (named : d ∈ ds) :
    Housed cfg p history d.sid d.reactorIdx := by
  obtain ⟨before, later, rfl⟩ := List.append_of_mem seen
  obtain ⟨rest, whole⟩ := front
  have split : trace taken = before ++ (p, e) :: (later ++ rest) := by
    rw [← whole]
    simp
  obtain ⟨legal, allowed⟩ := allowed_at run split
  have inside : ∀ x ∈ before, x ∈ trace taken := fun x member => by
    rw [split]
    exact List.mem_append_left _ member
  have early : Housed cfg p before d.sid d.reactorIdx := by
    cases e with
    | expanded origin cmd subs =>
        cases looks
        obtain ⟨sub, listed, rfl⟩ := List.mem_map.mp named
        rw [show subs = _ from allowed] at listed
        obtain ⟨i, id, live, _, reactor⟩ := subscriber_live legal listed
        rw [show sub.dest.reactorIdx = i from reactor]
        exact live_housed run inside legal live
    | resolved origin nid route =>
        cases looks
        obtain ⟨there, listed, rfl⟩ := List.mem_map.mp named
        rw [Option.mem_toList] at listed
        rw [show route = some there from listed] at allowed
        obtain ⟨e, member, i, gid, rfl, reactor⟩ := since_mem (route_since legal allowed.symm)
        obtain ⟨fd, registered⟩ := registered_before (k := there.sid) legal member fun _ => id
        have listed := mem_onPlane.mp registered
        exact ⟨i, reactor, registered_inside run (inside _ listed), fd, listed⟩
    | _ => cases looks
  exact early.mono fun x member => List.mem_append_left _ member

theorem expanded_housed (run : HubRun cfg wakeFd taken h) {history : List Entry}
    (front : history <+: trace taken) {o : Origin} {ds : List Dest} {d : Dest}
    (expanded : .expanded o ds ∈ signals q history) (named : d ∈ ds) :
    Housed cfg q.peer history d.sid d.reactorIdx := by
  obtain ⟨e, seen, looks⟩ := lookup_of_expanded expanded
  exact lookup_housed run front seen looks named

theorem distQueue_housed (run : HubRun cfg wakeFd taken h) {frame : Tagged OutboundFrame}
    (queued : frame ∈ (h.plane q.peer).distQueue) :
    Housed cfg q.peer (trace taken) frame.val.sid frame.val.reactorIdx := by
  have flow := hubRun_flow run q
  obtain ⟨ds, expanded, named⟩ := flow.backs.spooled
    (flow.located.spool (frameLabel frame) (List.mem_map_of_mem queued))
  exact expanded_housed run List.prefix_rfl expanded named

theorem distributor_housed (run : HubRun cfg wakeFd taken h) {frame : Tagged OutboundFrame}
    {attempt : Nat} (busy : (h.plane q.peer).distributor = .route frame attempt) :
    Housed cfg q.peer (trace taken) frame.val.sid frame.val.reactorIdx := by
  have flow := hubRun_flow run q
  have held : frameLabel frame ∈ (h.pipe q).relay := by
    have relay : (h.pipe q).relay = (h.plane q.peer).distributor.relay := rfl
    rw [relay, busy]
    exact List.mem_singleton.mpr rfl
  obtain ⟨ds, expanded, named⟩ := flow.backs.spooled (flow.backs _ (flow.located.relay _ held))
  exact expanded_housed run List.prefix_rfl expanded named

theorem Housed.at_lane {history : List Entry} {sid i : Nat} {d : Dest} (lane : i = laneOf d)
    (housed : Housed cfg p history sid d.reactorIdx) :
    d.reactorIdx = i ∧ i < cfg.reactors ∧ ∃ fd, (p, .registered i ⟨fd, sid⟩) ∈ history := by
  obtain ⟨j, same, inside, fd, member⟩ := housed
  have here : i = j := by
    rw [lane, laneOf, same, Int.toNat_natCast]
  rw [here]
  exact ⟨same, inside, fd, member⟩

theorem sendQueue_housed (run : HubRun cfg wakeFd taken h) {i : Nat} {frame : Tagged OutboundFrame}
    (queued : frame ∈ (h.plane q.peer).sendQueue i) :
    frame.val.reactorIdx = i ∧ i < cfg.reactors ∧
      ∃ fd, (q.peer, .registered i ⟨fd, frame.val.sid⟩) ∈ trace taken := by
  have flow := hubRun_flow run q
  obtain ⟨lane, ds, expanded, named⟩ := flow.backs.posted
    (flow.located.outbox i (frameLabel frame) (List.mem_map_of_mem queued))
  exact (expanded_housed run List.prefix_rfl expanded named).at_lane lane

theorem dropped_closed (run : HubRun cfg wakeFd taken h) {before later : List Entry} {i : Nat}
    {frame : Tagged OutboundFrame}
    (split : trace taken = before ++ (q.peer, .sendPopped i frame false) :: later) :
    ∃ first last fd, before = first ++ (q.peer, .closed i frame.val.sid) :: last ∧
      (q.peer, .registered i ⟨fd, frame.val.sid⟩) ∈ first := by
  have flow := hubRun_flow run q
  rw [split, signals_split rfl] at flow
  obtain ⟨lane, ds, expanded, named⟩ := flow.backs_front.posted (flow.backed rfl)
  obtain ⟨_, _, fd, registered⟩ :=
    (expanded_housed run ⟨_, split.symm⟩ expanded named).at_lane lane
  obtain ⟨legal, absent⟩ := allowed_at run split
  rcases registered_stays legal (mem_onPlane.mpr registered) with live | closed
  · exact absurd (absent.mpr live) nofun
  · obtain ⟨first, last, rfl⟩ := List.append_of_mem (mem_onPlane.mp closed)
    rw [List.append_assoc] at split
    obtain ⟨legal, id, live⟩ := allowed_at run split
    obtain ⟨fd, registered⟩ := live_registered legal live
    exact ⟨first, last, fd, rfl, mem_onPlane.mp registered⟩

end Frames

section Lookups

variable {cfg : HubConfig} {pl post : PlaneState} {events : List Event}

theorem acceptStep_inRange {fd : Int} {nonBlocking : Bool}
    (step : acceptStep fd nonBlocking pl = some (post, events)) :
    .outOfRange ∉ events ∧ ∀ idx conn, post.listener ≠ .push idx conn := by
  cases acceptStep_accepts step with
  | taken was => exact ⟨inRange_cons nofun inRange_nil, nofun⟩
  | blocking was => exact ⟨inRange_nil, again_ne_push pl⟩

theorem listenerStep_inRange {round : UInt64}
    (picked : ∀ idx conn, pl.listener = .push idx conn → ∃ n, idx = pickReactor cfg n)
    (step : listenerStep cfg round pl = some (post, events)) :
    .outOfRange ∉ events ∧ ∀ idx conn, post.listener = .push idx conn → ∃ n, idx = pickReactor cfg n := by
  have resumed : ∀ idx conn, pl.again = .push idx conn → ∃ n, idx = pickReactor cfg n :=
    fun idx conn pushing => absurd pushing (again_ne_push pl idx conn)
  cases listenerStep_listens step with
  | failed was => exact ⟨inRange_nil, resumed⟩
  | picked was =>
      refine ⟨inRange_cons nofun inRange_nil, fun idx conn pushing => ⟨round, ?_⟩⟩
      exact (Listener.push.inj pushing).1.symm
  | outOfRange was index =>
      obtain ⟨n, rfl⟩ := picked _ _ was
      rw [queueIndex_pickReactor] at index
      cases index
  | refused => exact ⟨inRange_cons nofun inRange_nil, resumed⟩
  | queued => exact ⟨inRange_cons nofun inRange_nil, nofun⟩
  | notified => exact ⟨inRange_nil, resumed⟩

theorem distributorStep_inRange
    (indexed : ∀ frame attempt, pl.distributor = .route frame attempt →
      queueIndex cfg.reactors frame.val.reactorIdx = some frame.val.reactorIdx.toNat)
    (step : distributorStep cfg pl = some (post, events)) : .outOfRange ∉ events := by
  cases distributorStep_distributes step with
  | outOfRange was index =>
      rw [indexed _ _ was] at index
      cases index
  | took | posted => exact inRange_cons nofun inRange_nil
  | _ => exact inRange_nil

variable {wakeFd : Plane → Nat → Int} {taken : List (Taken HubServer Action Entry)} {h : HubServer}

theorem hubRun_inRange (run : HubRun cfg wakeFd taken h) (p : Plane) :
    (∀ idx conn, (h.plane p).listener = .push idx conn → ∃ n, idx = pickReactor cfg n) ∧
      .outOfRange ∉ onPlane p (trace taken) := by
  refine run.invariant (fun history h =>
    (∀ idx conn, (h.plane p).listener = .push idx conn → ∃ n, idx = pickReactor cfg n) ∧
      .outOfRange ∉ onPlane p history) ⟨nofun, inRange_nil⟩ ?_
  intro past pre act post entries before known step
  obtain ⟨picked, inRange⟩ := known
  have agrees := (hubRun_follows before p).2
  have planeStep := hubStep_plane p step
  rw [onPlane_append]
  generalize post.plane p = next at planeStep
  generalize onPlane p entries = events at planeStep
  have joined : .outOfRange ∉ events → .outOfRange ∉ onPlane p (trace past) ++ events :=
    fun new member => (List.mem_append.mp member).elim inRange new
  cases planeStep with
  | aside same new =>
      rw [same.listener]
      exact ⟨picked, joined new⟩
  | accepted free step =>
      obtain ⟨new, accepts⟩ := acceptStep_inRange step
      exact ⟨fun idx conn pushing => absurd pushing (accepts idx conn), joined new⟩
  | listened step =>
      obtain ⟨new, pushes⟩ := listenerStep_inRange picked step
      exact ⟨pushes, joined new⟩
  | reacted inside step =>
      obtain ⟨task, rest, top, new, turned⟩ := reactorStep_turns agrees step
      refine ⟨?_, joined new⟩
      rcases turned with ⟨mid, calls, turn, rfl⟩ | rfl
      · intro idx conn pushing
        exact picked idx conn (turn.listener.1 ▸ pushing)
      · exact picked
  | distributed step =>
      rw [(distributorStep_apart step).listener]
      refine ⟨picked, joined (distributorStep_inRange ?_ step)⟩
      intro frame attempt routing
      rw [← p.peer_peer] at routing
      exact (distributor_housed before routing).index

end Lookups

section Runs

variable {cfg : HubConfig} {wakeFd : Plane → Nat → Int}
  {taken : List (Taken HubServer Action Entry)} {h : HubServer}

/-- Every index is that of an existing queue, frames go to the reactor that registered
their session, and a reactor drops a frame only after it has closed the session. -/
theorem frames_go_to_their_reactor (run : HubRun cfg wakeFd taken h) (p : Plane) :
    (∀ frame, frame ∈ (h.plane p).distQueue ∨
        (∃ attempt, (h.plane p).distributor = .route frame attempt) ∨
        (∃ i, frame ∈ (h.plane p).sendQueue i) →
      0 ≤ frame.val.reactorIdx ∧ frame.val.reactorIdx < max 1 cfg.reactorThreads) ∧
    (∀ i, ∀ frame ∈ (h.plane p).sendQueue i,
      ∃ fd, (p, .registered i ⟨fd, frame.val.sid⟩) ∈ trace taken) ∧
    (p, .outOfRange) ∉ trace taken ∧
    (∀ before later i frame,
      trace taken = before ++ (p, .sendPopped i frame false) :: later →
        ∃ first last fd, before = first ++ (p, .closed i frame.val.sid) :: last ∧
          (p, .registered i ⟨fd, frame.val.sid⟩) ∈ first) ∧
    (∀ n, ∃ i < cfg.reactors, queueIndex cfg.reactors (pickReactor cfg n) = some i) ∧
    ∀ sid, ∃ w < cfg.workers, queueIndex cfg.workers (pickWorker cfg sid) = some w := by
  obtain ⟨q, rfl⟩ : ∃ q : Plane, p = q.peer := ⟨p.peer, p.peer_peer.symm⟩
  refine ⟨?_, ?_, ?_, ?_, ?_, ?_⟩
  · rintro frame (spooled | ⟨attempt, routing⟩ | ⟨i, queued⟩)
    · exact (distQueue_housed run spooled).inRange
    · exact (distributor_housed run routing).inRange
    · obtain ⟨index, inside, registered⟩ := sendQueue_housed run queued
      exact Housed.inRange ⟨i, index, inside, registered⟩
  · intro i frame queued
    exact (sendQueue_housed run queued).2.2
  · exact fun seen => (hubRun_inRange run q.peer).2 (mem_onPlane.mpr seen)
  · intro before later i frame split
    exact dropped_closed run split
  · intro n
    refine ⟨_, Nat.mod_lt _ ?_, queueIndex_pickReactor cfg n⟩
    unfold HubConfig.reactors
    omega
  · intro sid
    refine ⟨_, Nat.mod_lt _ ?_, queueIndex_pickWorker cfg sid⟩
    unfold HubConfig.workers
    omega

def hangingUp : List Action :=
  linked ++ sending .kBackend 0 6 [businessFrame (Im.packPayload 9 0 1 0 [])] ++
    (List.replicate 3 (.worker .kBackend 0) ++ List.replicate 3 (.distributor .kForward)) ++
    ending .kForward 0 5

def Event.drops : Event → Bool
  | .sendPopped i _ isOpen => i == 0 && !isOpen
  | _ => false

theorem frames_go_to_their_reactor_dropped :
    ∃ taken h before later frame, HubRun (smallConfig 4) smallWakeFd taken h ∧
      trace taken = before ++ (.kForward, .sendPopped 0 frame false) :: later ∧
      ∃ first last fd, before = first ++ (.kForward, .closed 0 frame.val.sid) :: last ∧
        (.kForward, .registered 0 ⟨fd, frame.val.sid⟩) ∈ first := by
  obtain ⟨taken, h, run, _, seen⟩ := small_run 4 (fun _ => true) hangingUp
    (fun x => x.2.any fun entry => entry.1 == .kForward && entry.2.drops) (by decide +kernel)
  obtain ⟨⟨q, e⟩, member, shape⟩ := List.any_eq_true.mp seen
  obtain ⟨plane, dropped⟩ := (Bool.and_eq_true _ _).mp shape
  obtain rfl : q = .kForward := beq_iff_eq.mp plane
  obtain ⟨frame, rfl⟩ : ∃ frame, e = .sendPopped 0 frame false := by
    cases e with
    | sendPopped i frame isOpen =>
        simp only [Event.drops, Bool.and_eq_true, beq_iff_eq, Bool.not_eq_true'] at dropped
        exact ⟨frame, by rw [dropped.1, dropped.2]⟩
    | _ => cases dropped
  obtain ⟨before, later, split⟩ := List.append_of_mem member
  obtain ⟨_, _, _, closed, _⟩ := frames_go_to_their_reactor run .kForward
  exact ⟨taken, h, before, later, frame, run, split, closed before later 0 frame split⟩

end Runs

end HiImCore.Hub
