import HiImCore.Hub.ThreadSteps
import HiImCore.Hub.Traffic

/-! What workers and distributors do to messages and frames in transit, and the steps
of the hub seen that way. -/

namespace HiImCore.Hub

open Transition Wire

theorem chooseHandler_eq (p : Plane) (type : UInt32) :
    chooseHandler p type =
      some (match p with | .kForward => .forwardUplink | .kBackend => .backendDownlink) := by
  cases p <;> by_cases zero : type = 0 <;>
    simp [chooseHandler, findHandler, handlers, zero]

def Returns (origin : Origin) (events : List Event) : Prop :=
  ∀ e ∈ events, ∃ status, e = .returned origin status

section Workers

variable (cfg : HubConfig) (p : Plane) (w : Nat) (own peer : PlaneState)

inductive WorkerEffect : WorkerStep → Prop
  | idle {next : Worker} (was : own.worker w = .pop) (still : next = .pop ∨ next = .stopped) :
      WorkerEffect ⟨next, own.recvQueue w, [], peer.distQueue, []⟩
  | took {msg : Tagged InboundMessage} {left : List (Tagged InboundMessage)}
      (was : own.worker w = .pop) (front : own.recvQueue w = msg :: left) :
      WorkerEffect ⟨.handle msg, left, [.recvPopped w msg], peer.distQueue, []⟩
  | published {msg : Tagged InboundMessage} {tail : List Event}
      (was : own.worker w = .handle msg) (plane : p = .kForward)
      (results : Returns msg.origin tail) :
      WorkerEffect
        ⟨(publishNext msg (peer.router.findSubscribers msg.val.type)).1, own.recvQueue w, [],
          peer.distQueue,
          .expanded msg.origin msg.val.type (peer.router.findSubscribers msg.val.type) :: tail⟩
  | ignored {msg : Tagged InboundMessage} (was : own.worker w = .handle msg)
      (plane : p = .kBackend) :
      WorkerEffect ⟨.pop, own.recvQueue w, [], peer.distQueue, []⟩
  | unrouted {msg : Tagged InboundMessage} {tail : List Event} (was : own.worker w = .handle msg)
      (plane : p = .kBackend) (dest : Im.readDestNid msg.val.payload ≠ 0)
      (results : Returns msg.origin tail) :
      WorkerEffect ⟨.pop, own.recvQueue w, [], peer.distQueue,
        .resolved msg.origin (Im.readDestNid msg.val.payload) none :: tail⟩
  | routed {msg : Tagged InboundMessage} {route : NidRoute} (was : own.worker w = .handle msg)
      (plane : p = .kBackend) (dest : Im.readDestNid msg.val.payload ≠ 0)
      (found : peer.router.findNidRoute (Im.readDestNid msg.val.payload) = some route) :
      WorkerEffect
        ⟨.push msg ⟨unicastFrame msg.val.type (Im.readDestNid msg.val.payload) msg.val.payload route,
            msg.origin⟩ 0 none,
          own.recvQueue w, [], peer.distQueue,
          [.resolved msg.origin (Im.readDestNid msg.val.payload) (some route)]⟩
  | pushed {msg : Tagged InboundMessage} {out : Tagged OutboundFrame} {attempt : Nat}
      {rest : Option (List Subscriber)} {tail : List Event}
      (was : own.worker w = .push msg out attempt rest)
      (room : peer.distQueue.length < cfg.queueCapacity) (results : Returns msg.origin tail) :
      WorkerEffect ⟨(publishNext msg (rest.getD [])).1, own.recvQueue w, [],
        peer.distQueue ++ [out], .distPushed out :: tail⟩
  | retried {msg : Tagged InboundMessage} {out : Tagged OutboundFrame} {attempt : Nat}
      {rest : Option (List Subscriber)} (was : own.worker w = .push msg out attempt rest) :
      WorkerEffect ⟨.push msg (movedFrom out) (attempt + 1) rest, own.recvQueue w, [],
        peer.distQueue, []⟩
  | gaveUp {msg : Tagged InboundMessage} {out : Tagged OutboundFrame} {attempt : Nat}
      {rest : Option (List Subscriber)} {tail : List Event}
      (was : own.worker w = .push msg out attempt rest) (results : Returns msg.origin tail) :
      WorkerEffect ⟨.pop, own.recvQueue w, [], peer.distQueue, tail⟩

end Workers

theorem returns_nil (origin : Origin) : Returns origin [] := by
  intro e member
  cases member

theorem returns_one (origin : Origin) (status : Status) :
    Returns origin [.returned origin status] := by
  intro e member
  exact ⟨status, List.mem_singleton.mp member⟩

theorem publishNext_returns (msg : Tagged InboundMessage) (subs : List Subscriber) :
    Returns msg.origin (publishNext msg subs).2 := by
  cases subs with
  | nil => exact returns_one msg.origin .ok
  | cons sub rest => exact returns_nil msg.origin

theorem workerStep_effect {cfg : HubConfig} {p : Plane} {w : Nat} {own peer : PlaneState}
    {s : WorkerStep} (step : workerStep cfg p w own peer = some s) :
    WorkerEffect cfg p w own peer s := by
  unfold workerStep at step
  dsimp only at step
  split at step
  · cases step
  · rename_i was
    split at step
    · cases step
      refine .idle was ?_
      split
      · exact Or.inl rfl
      · exact Or.inr rfl
    · rename_i popped
      cases step
      exact .took was (pop_some popped)
  · rename_i msg was
    rw [chooseHandler_eq] at step
    cases p with
    | kForward =>
        cases step
        simp only [forwardUplinkHandler]
        split
        · rename_i none
          have empty := List.isEmpty_iff.mp none
          have effect : WorkerEffect cfg .kForward w own peer _ :=
            .published was rfl (returns_one msg.origin (.error .kNotFound "no subscribers"))
          rw [empty] at effect ⊢
          exact effect
        · exact .published was rfl (publishNext_returns msg _)
    | kBackend =>
        cases step
        simp only [backendDownlinkHandler]
        split
        · exact .ignored was rfl
        · rename_i dest
          split
          · rename_i absent
            rw [absent]
            exact .unrouted was rfl dest (returns_one _ _)
          · rename_i route found
            rw [found]
            exact .routed was rfl dest found
  · rename_i msg out attempt rest was
    split at step
    · rename_i done
      obtain ⟨room, rfl⟩ := pushAttempt_pushed done
      split at step
      · cases step
        exact .pushed was room (returns_one _ _)
      · cases step
        exact .pushed was room (publishNext_returns _ _)
    · rename_i again
      obtain ⟨_, rfl, rfl⟩ := pushAttempt_retry again
      cases step
      exact .retried was
    · cases step
      exact .gaveUp was (returns_one _ _)

inductive DistributorEffect (cfg : HubConfig) (pl : PlaneState) : List Event → Traffic → Prop
  | idle {next : Distributor} (was : (∃ i, pl.distributor = .notify i) ∨ pl.distributor = .pop)
      (still : next = .pop ∨ next = .stopped) :
      DistributorEffect cfg pl [] { pl.traffic with distributor := next }
  | took {frame : Tagged OutboundFrame} {left : List (Tagged OutboundFrame)}
      (was : pl.distributor = .pop) (front : pl.distQueue = frame :: left) :
      DistributorEffect cfg pl [.distPopped frame]
        { pl.traffic with distributor := .route frame 0, distQueue := left }
  | outOfRange : DistributorEffect cfg pl [.outOfRange] pl.traffic
  | posted {frame : Tagged OutboundFrame} {attempt i : Nat}
      (was : pl.distributor = .route frame attempt)
      (index : queueIndex cfg.reactors frame.val.reactorIdx = some i)
      (room : (pl.sendQueue i).length < cfg.queueCapacity) :
      DistributorEffect cfg pl [.sendPushed i frame]
        { pl.traffic with
          distributor := .notify i
          sendQueue := Function.update pl.sendQueue i (pl.sendQueue i ++ [frame]) }
  | retried {frame : Tagged OutboundFrame} {attempt : Nat}
      (was : pl.distributor = .route frame attempt) :
      DistributorEffect cfg pl []
        { pl.traffic with distributor := .route (movedFrom frame) (attempt + 1) }
  | gaveUp {frame : Tagged OutboundFrame} {attempt : Nat}
      (was : pl.distributor = .route frame attempt) :
      DistributorEffect cfg pl [] { pl.traffic with distributor := .pop }

theorem distributorStep_effect {cfg : HubConfig} {pl post : PlaneState} {events : List Event}
    (step : distributorStep cfg pl = some (post, events)) :
    DistributorEffect cfg pl events post.traffic := by
  cases distributorStep_distributes step with
  | idle was still => exact .idle (.inr was) still
  | took was front => exact .took was front
  | gaveUp was => exact .gaveUp was
  | outOfRange was index => exact .outOfRange
  | posted was index room => exact .posted was index room
  | retried was => exact .retried was
  | notified was => exact .idle (.inl ⟨_, was⟩) (.inl rfl)

inductive Role where
  | listener
  | reactor
  | worker
  | distributor
  deriving DecidableEq, Repr

def Event.role : Event → Option Role
  | .accepted .. | .refused .. | .picked .. | .queued .. => some .listener
  | .registered .. | .closed .. | .system .. | .bound .. | .subscribed .. | .unsubscribed ..
  | .received .. | .recvPushed .. | .sendPopped .. | .appended .. | .wrote .. | .dangling .. =>
      some .reactor
  | .recvPopped .. | .resolved .. | .expanded .. | .returned .. | .distPushed .. => some .worker
  | .distPopped .. | .sendPushed .. => some .distributor
  | .outOfRange => none

def Event.isBy (role : Role) (e : Event) : Bool := e.role.all (· == role)

theorem ReactorEffect.by_reactor {cfg : HubConfig} {i : Nat} {pl : PlaneState}
    {events : List Event} {t : Traffic} (effect : ReactorEffect cfg i pl events t) :
    ∀ e ∈ events, e.isBy .reactor = true := by
  cases effect with
  | @system k session frame left answer pops flag answered =>
      refine List.forall_mem_cons.mpr ⟨rfl, ?_⟩
      cases answered <;> simp [Event.isBy, Event.role]
  | sent front found =>
      refine List.forall_mem_cons.mpr ⟨rfl, ?_⟩
      split <;> simp [Event.isBy, Event.role]
  | _ => simp [Event.isBy, Event.role]

theorem DistributorEffect.by_distributor {cfg : HubConfig} {pl : PlaneState} {events : List Event}
    {t : Traffic} (effect : DistributorEffect cfg pl events t) :
    ∀ e ∈ events, e.isBy .distributor = true := by
  cases effect <;> simp [Event.isBy, Event.role]

theorem Returns.by_worker {origin : Origin} {events : List Event} (results : Returns origin events) :
    ∀ e ∈ events, e.isBy .worker = true := by
  intro e member
  obtain ⟨status, rfl⟩ := results e member
  rfl

theorem WorkerEffect.by_worker {cfg : HubConfig} {p : Plane} {w : Nat} {own peer : PlaneState}
    {s : WorkerStep} (effect : WorkerEffect cfg p w own peer s) :
    ∀ e ∈ s.own ++ s.peer, e.isBy .worker = true := by
  cases effect with
  | published was plane results => exact List.forall_mem_cons.mpr ⟨rfl, results.by_worker⟩
  | unrouted was plane dest results => exact List.forall_mem_cons.mpr ⟨rfl, results.by_worker⟩
  | pushed was room results => exact List.forall_mem_cons.mpr ⟨rfl, results.by_worker⟩
  | gaveUp was results => exact results.by_worker
  | _ => simp [Event.isBy, Event.role]

/-- A step of the hub, seen by what it does to the traffic of both planes. -/
inductive HubEffect (cfg : HubConfig) (h : HubServer) : Action → HubServer → List Entry → Prop
  | listening {act : Action} {post : HubServer} {p : Plane} {events : List Event}
      (same : ∀ q, (post.plane q).traffic = (h.plane q).traffic)
      (silent : ∀ e ∈ events, e.isBy .listener = true) :
      HubEffect cfg h act post (events.map (Prod.mk p))
  | reactor {p : Plane} {i : Nat} {input : ReactorInput} {pl : PlaneState} {events : List Event}
      (effect : ReactorEffect cfg i (h.plane p) events pl.traffic) :
      HubEffect cfg h (.reactor p i input) (h.setPlane p pl) (events.map (Prod.mk p))
  | distributor {p : Plane} {pl : PlaneState} {events : List Event}
      (effect : DistributorEffect cfg (h.plane p) events pl.traffic) :
      HubEffect cfg h (.distributor p) (h.setPlane p pl) (events.map (Prod.mk p))
  | worker {p : Plane} {w : Nat} {s : WorkerStep}
      (effect : WorkerEffect cfg p w (h.plane p) (h.plane p.peer) s) :
      HubEffect cfg h (.worker p w)
        ((h.setPlane p
          { h.plane p with
            worker := Function.update (h.plane p).worker w s.worker
            recvQueue := Function.update (h.plane p).recvQueue w s.recvQueue }).setPlane p.peer
          { h.plane p.peer with distQueue := s.distQueue })
        (s.own.map (Prod.mk p) ++ s.peer.map (Prod.mk p.peer))

section Roles

variable {cfg : HubConfig} {h post : HubServer} {act : Action} {entries : List Entry} {q : Plane}
  {e : Event}

theorem Event.role_of_isBy {role actual : Role} (recorded : e.isBy role = true)
    (known : e.role = some actual) : actual = role := by
  rw [Event.isBy, known] at recorded
  exact beq_iff_eq.mp recorded

theorem mem_entries {p : Plane} {events : List Event} :
    (q, e) ∈ events.map (Prod.mk p) ↔ q = p ∧ e ∈ events := by
  simp only [List.mem_map, Prod.mk.injEq]
  constructor
  · rintro ⟨x, member, rfl, rfl⟩
    exact ⟨rfl, member⟩
  · rintro ⟨rfl, member⟩
    exact ⟨e, member, rfl, rfl⟩

theorem HubEffect.of_reactor (effect : HubEffect cfg h act post entries)
    (seen : (q, e) ∈ entries) (role : e.role = some .reactor) :
    ∃ i input pl events, act = .reactor q i input ∧ post = h.setPlane q pl ∧
      entries = events.map (Prod.mk q) ∧ e ∈ events ∧
      ReactorEffect cfg i (h.plane q) events pl.traffic := by
  cases effect with
  | listening same silent =>
      cases Event.role_of_isBy (silent e (mem_entries.mp seen).2) role
  | @reactor p i input pl events effect =>
      obtain ⟨rfl, member⟩ := mem_entries.mp seen
      exact ⟨i, input, pl, events, rfl, rfl, rfl, member, effect⟩
  | distributor effect =>
      cases Event.role_of_isBy (effect.by_distributor e (mem_entries.mp seen).2) role
  | worker effect =>
      refine absurd (Event.role_of_isBy (effect.by_worker e ?_) role) (by decide)
      exact List.mem_append.mpr ((List.mem_append.mp seen).imp
        (fun own => (mem_entries.mp own).2) (fun peer => (mem_entries.mp peer).2))

theorem HubEffect.of_worker (effect : HubEffect cfg h act post entries)
    (seen : (q, e) ∈ entries) (role : e.role = some .worker) :
    ∃ p w s, act = .worker p w ∧ WorkerEffect cfg p w (h.plane p) (h.plane p.peer) s ∧
      (q = p ∧ e ∈ s.own ∨ q = p.peer ∧ e ∈ s.peer) := by
  cases effect with
  | listening same silent =>
      cases Event.role_of_isBy (silent e (mem_entries.mp seen).2) role
  | reactor effect => cases Event.role_of_isBy (effect.by_reactor e (mem_entries.mp seen).2) role
  | distributor effect =>
      cases Event.role_of_isBy (effect.by_distributor e (mem_entries.mp seen).2) role
  | @worker p w s effect =>
      exact ⟨p, w, s, rfl, effect, (List.mem_append.mp seen).imp mem_entries.mp mem_entries.mp⟩

end Roles

def HubServer.Shaped (h : HubServer) : Prop := ∀ p j, ((h.plane p).reactor j).Shaped

section Steps

variable {cfg : HubConfig} {h post : HubServer} {p : Plane} {entries : List Entry}

theorem localStep_some {result : Option (PlaneState × List Event)}
    (step : localStep h p result = some (post, entries)) :
    ∃ pl events, result = some (pl, events) ∧ post = h.setPlane p pl ∧
      entries = events.map (Prod.mk p) := by
  simp only [localStep, Option.map_eq_some_iff] at step
  obtain ⟨⟨pl, events⟩, done, same⟩ := step
  cases same
  exact ⟨pl, events, done, rfl, rfl⟩

theorem setPlane_traffic {pl : PlaneState} (same : pl.traffic = (h.plane p).traffic) (q : Plane) :
    ((h.setPlane p pl).plane q).traffic = (h.plane q).traffic := by
  by_cases here : q = p
  · subst here
    rw [HubServer.setPlane_self, same]
  · rw [HubServer.setPlane_other h pl here]

theorem setPlane_shaped {pl : PlaneState} (shaped : h.Shaped)
    (next : ∀ j, (pl.reactor j).Shaped) : (h.setPlane p pl).Shaped := by
  intro q
  by_cases here : q = p
  · subst here
    rw [HubServer.setPlane_self]
    exact next
  · rw [HubServer.setPlane_other h pl here]
    exact shaped q

theorem acceptStep_listening {pl after : PlaneState} {fd : Int} {nonBlocking : Bool}
    {events : List Event} (step : acceptStep fd nonBlocking pl = some (after, events)) :
    after.traffic = pl.traffic ∧ after.reactor = pl.reactor ∧
      ∀ e ∈ events, e.isBy .listener = true := by
  cases acceptStep_accepts step <;> simp [PlaneState.traffic, Event.isBy, Event.role]

theorem listenerStep_listening {pl after : PlaneState} {round : UInt64} {events : List Event}
    (step : listenerStep cfg round pl = some (after, events)) :
    after.traffic = pl.traffic ∧ after.reactor = pl.reactor ∧
      ∀ e ∈ events, e.isBy .listener = true := by
  cases listenerStep_listens step <;> simp [PlaneState.traffic, Event.isBy, Event.role]

theorem hubStep_effect {act : Action} (shaped : h.Shaped)
    (step : hubStep cfg h act = some (post, entries)) :
    HubEffect cfg h act post entries ∧ post.Shaped := by
  unfold hubStep at step
  split at step
  · cases step
  · cases act with
    | accept p fd nonBlocking =>
        dsimp only at step
        split at step
        · obtain ⟨pl, events, done, rfl, rfl⟩ := localStep_some step
          obtain ⟨same, reactors, silent⟩ := acceptStep_listening done
          refine ⟨.listening (setPlane_traffic same) silent, setPlane_shaped shaped ?_⟩
          rw [reactors]
          exact shaped p
        · cases step
    | listener p =>
        obtain ⟨pl, events, done, rfl, rfl⟩ := localStep_some step
        obtain ⟨same, reactors, silent⟩ := listenerStep_listening done
        have counted : (h.counted p).Shaped := shaped
        refine ⟨.listening (@setPlane_traffic (h.counted p) p pl same) silent,
          setPlane_shaped counted ?_⟩
        rw [reactors]
        exact shaped p
    | reactor p i input =>
        dsimp only at step
        split at step
        · obtain ⟨pl, events, done, rfl, rfl⟩ := localStep_some step
          obtain ⟨effect, next⟩ := reactorStep_moves (shaped p) done
          exact ⟨.reactor effect, setPlane_shaped shaped next⟩
        · cases step
    | worker p w =>
        dsimp only at step
        split at step
        · obtain ⟨s, done, same⟩ := Option.map_eq_some_iff.mp step
          cases same
          exact ⟨.worker (workerStep_effect done),
            setPlane_shaped (setPlane_shaped shaped (shaped p)) (shaped p.peer)⟩
        · cases step
    | distributor p =>
        obtain ⟨pl, events, done, rfl, rfl⟩ := localStep_some step
        refine ⟨.distributor (distributorStep_effect done), setPlane_shaped shaped ?_⟩
        rw [(distributorStep_apart done).reactor]
        exact shaped p
    | stop p =>
        obtain ⟨pl, events, done, rfl, rfl⟩ := localStep_some step
        cases done
        exact ⟨.listening (setPlane_traffic rfl) (by simp), setPlane_shaped shaped (shaped p)⟩

theorem hubRun_shaped {wakeFd : Plane → Nat → Int} {taken : List (Taken HubServer Action Entry)}
    (run : HubRun cfg wakeFd taken h) : h.Shaped := by
  refine run.invariant (fun _ h => h.Shaped) ?_ ?_
  · intro p j task member
    cases member
  · intro past pre act post events _ shaped step
    exact (hubStep_effect shaped step).2

theorem hubRun_effect {wakeFd : Plane → Nat → Int} {taken : List (Taken HubServer Action Entry)}
    {act : Action} (run : HubRun cfg wakeFd taken h)
    (step : hubStep cfg h act = some (post, entries)) : HubEffect cfg h act post entries :=
  (hubStep_effect (hubRun_shaped run) step).1

end Steps

end HiImCore.Hub
