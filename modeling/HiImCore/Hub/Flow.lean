import HiImCore.Hub.Messages
import HiImCore.Lib.Pipeline

/-! The traffic from one plane to the other is a pipeline: every run of the hub is, for
each direction, a flow of origins and destinations. -/

namespace HiImCore.Hub

open Pipeline Transition Wire

structure Dest where
  sid : Nat
  reactorIdx : Int
  deriving DecidableEq, Repr

def Subscriber.dest (sub : Subscriber) : Dest := ⟨sub.sid, sub.reactorIdx⟩

def NidRoute.dest (route : NidRoute) : Dest := ⟨route.sid, route.reactorIdx⟩

def frameLabel (frame : Tagged OutboundFrame) : Origin × Dest :=
  (frame.origin, ⟨frame.val.sid, frame.val.reactorIdx⟩)

def shardOf (cfg : HubConfig) (origin : Origin) : Nat := origin.sid % cfg.workers

def laneOf (dest : Dest) : Nat := dest.reactorIdx.toNat

def Worker.opened : Worker → List Origin
  | .handle msg => [msg.origin]
  | _ => []

def Worker.todo : Worker → List (Origin × Dest)
  | .push msg out _ rest =>
      frameLabel out :: (rest.getD []).map fun sub => (msg.origin, sub.dest)
  | _ => []

def Distributor.relay : Distributor → List (Origin × Dest)
  | .route frame _ => [frameLabel frame]
  | _ => []

def pipeOf (source dest : Traffic) : Pipe Origin Dest where
  hand := fun i => (source.hand i).map fun x => x.1.origin
  inbox := fun w => (source.recvQueue w).map Tagged.origin
  opened := fun w => (source.worker w).opened
  todo := fun w => (source.worker w).todo
  spool := dest.distQueue.map frameLabel
  relay := dest.distributor.relay
  outbox := fun l => (dest.sendQueue l).map frameLabel

def inward : Event → Option (Signal Origin Dest)
  | .received i origin => some (.arrived i origin)
  | .recvPushed w msg => some (.admitted w msg.origin)
  | .recvPopped w msg => some (.opened w msg.origin)
  | _ => none

def outward : Event → Option (Signal Origin Dest)
  | .expanded origin _ subs => some (.expanded origin (subs.map Subscriber.dest))
  | .resolved origin _ route => some (.expanded origin (route.toList.map NidRoute.dest))
  | .distPushed frame => some (.spooled frame.origin (frameLabel frame).2)
  | .distPopped frame => some (.relayed frame.origin (frameLabel frame).2)
  | .sendPushed i frame => some (.posted i frame.origin (frameLabel frame).2)
  | .sendPopped i frame _ => some (.delivered i frame.origin (frameLabel frame).2)
  | _ => none

def signals (p : Plane) (history : List Entry) : List (Signal Origin Dest) :=
  history.filterMap fun entry => if entry.1 = p then inward entry.2 else outward entry.2

@[simp] theorem signals_append (p : Plane) (first second : List Entry) :
    signals p (first ++ second) = signals p first ++ signals p second := List.filterMap_append

theorem signals_own (p : Plane) (events : List Event) :
    signals p (events.map (Prod.mk p)) = events.filterMap inward := by
  simp [signals, List.filterMap_map]

theorem signals_peer {p q : Plane} (other : q ≠ p) (events : List Event) :
    signals p (events.map (Prod.mk q)) = events.filterMap outward := by
  simp [signals, List.filterMap_map, other]

section Silence

theorem filterMap_silent {f : Event → Option (Signal Origin Dest)} {events : List Event}
    (silent : ∀ e ∈ events, f e = none) : events.filterMap f = [] :=
  List.filterMap_eq_nil_iff.mpr silent

theorem listening_silent {e : Event} (listening : e.isBy .listener = true) :
    inward e = none ∧ outward e = none := by
  cases e <;> first | exact ⟨rfl, rfl⟩ | cases listening

theorem answer_silent {cfg : HubConfig} {i k : Nat} {session : Session} {frame : FrameView}
    {events : List Event} (answered : Answer cfg i k session frame events) :
    events.filterMap inward = [] ∧ events.filterMap outward = [] := by
  cases answered <;> exact ⟨rfl, rfl⟩

theorem returns_silent {origin : Origin} {events : List Event} (results : Returns origin events) :
    events.filterMap inward = [] ∧ events.filterMap outward = [] := by
  constructor
  · refine filterMap_silent fun e member => ?_
    obtain ⟨status, rfl⟩ := results e member
    rfl
  · refine filterMap_silent fun e member => ?_
    obtain ⟨status, rfl⟩ := results e member
    rfl

end Silence

section Stations

variable (source dest : Traffic) (k : Nat)

theorem map_update {α β : Type} (f : Nat → α) (g : α → β) (x : α) :
    (fun j => g (Function.update f k x j)) = Function.update (fun j => g (f j)) k (g x) :=
  funext fun j => Function.apply_update (fun _ => g) f k x j

theorem pipeOf_hand (items : List (Tagged InboundMessage × Nat)) :
    pipeOf { source with hand := Function.update source.hand k items } dest =
      { pipeOf source dest with
        hand := Function.update (pipeOf source dest).hand k (items.map fun x => x.1.origin) } := by
  simp only [pipeOf, map_update k source.hand]

theorem pipeOf_recvQueue (items : List (Tagged InboundMessage)) :
    pipeOf { source with recvQueue := Function.update source.recvQueue k items } dest =
      { pipeOf source dest with
        inbox := Function.update (pipeOf source dest).inbox k (items.map Tagged.origin) } := by
  simp only [pipeOf, map_update k source.recvQueue]

theorem pipeOf_sendQueue (items : List (Tagged OutboundFrame)) :
    pipeOf source { dest with sendQueue := Function.update dest.sendQueue k items } =
      { pipeOf source dest with
        outbox := Function.update (pipeOf source dest).outbox k (items.map frameLabel) } := by
  simp only [pipeOf, map_update k dest.sendQueue]

end Stations

section Steps

variable {cfg : HubConfig} {i w : Nat} {pl own peer : PlaneState} {events : List Event}
  {t : Traffic}

theorem queueIndex_some {count j : Nat} {idx : Int} (found : queueIndex count idx = some j) :
    j = idx.toNat := by
  unfold queueIndex at found
  split at found
  · exact (Option.some.inj found).symm
  · cases found

theorem ReactorEffect.enters (effect : ReactorEffect cfg i pl events t)
    (genuine : pl.traffic.Carries (fun msg _ => Genuine msg) Genuine) (dest : Traffic) :
    Step (shardOf cfg) laneOf (pipeOf pl.traffic dest) (events.filterMap inward)
      (pipeOf t dest) := by
  have origin : ∀ {msg attempt}, pl.traffic.hand i = [(msg, attempt)] →
      (pipeOf pl.traffic dest).hand i = [msg.origin] := by
    intro msg attempt held
    simp only [pipeOf, held, List.map_cons, List.map_nil]
  cases effect with
  | quiet | dangling | outOfRange | closed | registered | wrote => exact .rest _
  | system pops flag answered =>
      rw [List.filterMap_cons_none rfl, (answer_silent answered).1]
      exact .rest _
  | @received k session frame left pops flag authed free =>
      rw [pipeOf_hand]
      refine .arrive _ i (inbound i session frame).origin ?_
      simp only [pipeOf, free, List.map_nil]
  | @pushed msg attempt v held index room =>
      have same : v = shardOf cfg msg.origin := by
        obtain ⟨sid, _, _⟩ := genuine.hand i msg attempt (by rw [held]; simp)
        rw [queueIndex_some index, pickWorker, sid]
        rfl
      subst same
      have queued := pipeOf_recvQueue { pl.traffic with hand := Function.update pl.traffic.hand i [] }
        dest (shardOf cfg msg.origin) (pl.recvQueue (shardOf cfg msg.origin) ++ [msg])
      rw [pipeOf_hand, List.map_append] at queued
      exact queued ▸ .enqueue (pipeOf pl.traffic dest) i msg.origin [] (origin held)
  | @retried msg attempt held =>
      rw [pipeOf_hand]
      have same : Function.update (pipeOf pl.traffic dest).hand i
          ([(movedFrom msg, attempt + 1)].map fun x => x.1.origin) =
          (pipeOf pl.traffic dest).hand :=
        (Function.update_eq_self_iff ..).mpr (origin held).symm
      rw [same]
      exact .rest _
  | gaveUp held =>
      rw [pipeOf_hand]
      exact .abandon _ i _ [] (origin held)
  | dropped front absent => exact .rest _
  | @sent item left session front found =>
      have silent : (if item.val.bytes.isEmpty then []
          else [Event.appended i item.val.sid item.val.bytes]).filterMap inward = [] := by
        split <;> rfl
      rw [List.filterMap_cons_none rfl, silent]
      exact .rest _

theorem ReactorEffect.leaves (effect : ReactorEffect cfg i pl events t) (source : Traffic) :
    Step (shardOf cfg) laneOf (pipeOf source pl.traffic) (events.filterMap outward)
      (pipeOf source t) := by
  have delivery : ∀ {item left}, pl.sendQueue i = item :: left →
      Step (shardOf cfg) laneOf (pipeOf source pl.traffic)
        [.delivered i item.origin (frameLabel item).2]
        (pipeOf source
          { pl.traffic with sendQueue := Function.update pl.traffic.sendQueue i left }) := by
    intro item left queue
    rw [pipeOf_sendQueue]
    refine .deliver _ i _ _ (left.map frameLabel) ?_
    simp only [pipeOf, PlaneState.traffic, queue, List.map_cons]
    rfl
  cases effect with
  | quiet | dangling | outOfRange | closed | registered | wrote => exact .rest _
  | system pops flag answered =>
      rw [List.filterMap_cons_none rfl, (answer_silent answered).2]
      exact .rest _
  | received pops flag authed free => exact .rest _
  | pushed held index room => exact .rest _
  | retried held => exact .rest _
  | gaveUp held => exact .rest _
  | dropped queue absent => exact delivery queue
  | @sent item left session queue found =>
      have shown : (Event.sendPopped i item true :: if item.val.bytes.isEmpty then []
          else [Event.appended i item.val.sid item.val.bytes]).filterMap outward =
          [.delivered i item.origin (frameLabel item).2] := by
        split <;> rfl
      rw [shown]
      exact delivery queue

theorem DistributorEffect.leaves (effect : DistributorEffect cfg pl events t) (source : Traffic) :
    Step (shardOf cfg) laneOf (pipeOf source pl.traffic) (events.filterMap outward)
      (pipeOf source t) := by
  have held : ∀ {frame attempt}, pl.distributor = .route frame attempt →
      (pipeOf source pl.traffic).relay = [frameLabel frame] := by
    intro frame attempt was
    simp only [pipeOf, PlaneState.traffic, was, Distributor.relay]
  cases effect with
  | @idle next was still =>
      have empty : next.relay = [] := by rcases still with rfl | rfl <;> rfl
      have same : pipeOf source { pl.traffic with distributor := next } =
          { pipeOf source pl.traffic with relay := [] } := by
        simp only [pipeOf, empty]
      rw [same]
      exact .lose _
  | @took frame left was front =>
      refine .pick (pipeOf source pl.traffic) frame.origin _ (left.map frameLabel) ?_ ?_
      · simp only [pipeOf, PlaneState.traffic, front, List.map_cons]
        rfl
      · simp only [pipeOf, PlaneState.traffic, was, Distributor.relay]
  | outOfRange => exact .rest _
  | @posted frame attempt j was index room =>
      obtain rfl := queueIndex_some index
      have sent := pipeOf_sendQueue source { pl.traffic with distributor := .notify frame.val.reactorIdx.toNat }
        frame.val.reactorIdx.toNat (pl.sendQueue frame.val.reactorIdx.toNat ++ [frame])
      rw [List.map_append] at sent
      exact sent ▸ .post (pipeOf source pl.traffic) frame.origin _ [] (held was)
  | @retried frame attempt was =>
      have same : pipeOf source
          { pl.traffic with distributor := .route (movedFrom frame) (attempt + 1) } =
          pipeOf source pl.traffic := by
        simp only [pipeOf, PlaneState.traffic, was]
        rfl
      rw [same]
      exact .rest _
  | gaveUp was => exact .lose _

theorem DistributorEffect.enters (effect : DistributorEffect cfg pl events t) (dest : Traffic) :
    Step (shardOf cfg) laneOf (pipeOf pl.traffic dest) (events.filterMap inward)
      (pipeOf t dest) := by
  cases effect <;> exact .rest _

theorem publishNext_stations (msg : Tagged InboundMessage) (subs : List Subscriber) :
    (publishNext msg subs).1.opened = [] ∧
      (publishNext msg subs).1.todo = subs.map fun sub => (msg.origin, sub.dest) := by
  cases subs with
  | nil => exact ⟨rfl, rfl⟩
  | cons sub rest => exact ⟨rfl, rfl⟩

theorem pipeOf_crossed (s : WorkerStep) :
    pipeOf
        { own.traffic with
          worker := Function.update own.worker w s.worker
          recvQueue := Function.update own.recvQueue w s.recvQueue }
        { peer.traffic with distQueue := s.distQueue } =
      { pipeOf own.traffic peer.traffic with
        opened := Function.update (pipeOf own.traffic peer.traffic).opened w s.worker.opened
        todo := Function.update (pipeOf own.traffic peer.traffic).todo w s.worker.todo
        inbox := Function.update (pipeOf own.traffic peer.traffic).inbox w
          (s.recvQueue.map Tagged.origin)
        spool := s.distQueue.map frameLabel } := by
  simp only [pipeOf, map_update w own.worker, map_update w own.recvQueue]
  rfl

theorem WorkerEffect.crosses {p : Plane} {s : WorkerStep}
    (effect : WorkerEffect cfg p w own peer s) :
    Step (shardOf cfg) laneOf (pipeOf own.traffic peer.traffic)
      (s.own.filterMap inward ++ s.peer.filterMap outward)
      (pipeOf
        { own.traffic with
          worker := Function.update own.worker w s.worker
          recvQueue := Function.update own.recvQueue w s.recvQueue }
        { peer.traffic with distQueue := s.distQueue }) := by
  rw [pipeOf_crossed]
  have opened : ∀ {state}, own.worker w = state →
      (pipeOf own.traffic peer.traffic).opened w = state.opened := by
    rintro state rfl
    rfl
  have todo : ∀ {state}, own.worker w = state →
      (pipeOf own.traffic peer.traffic).todo w = state.todo := by
    rintro state rfl
    rfl
  generalize pipe : pipeOf own.traffic peer.traffic = s₀ at opened todo ⊢
  have inbox : s₀.inbox w = (own.recvQueue w).map Tagged.origin := by
    rw [← pipe]
    rfl
  have spool : s₀.spool = peer.distQueue.map frameLabel := by
    rw [← pipe]
    rfl
  -- what a step leaves alone
  have sameInbox : Function.update s₀.inbox w ((own.recvQueue w).map Tagged.origin) = s₀.inbox := by
    rw [← inbox, Function.update_eq_self]
  have sameOpened : ∀ {state}, own.worker w = state →
      Function.update s₀.opened w state.opened = s₀.opened := by
    intro state was
    rw [← opened was, Function.update_eq_self]
  have sameTodo : ∀ {state}, own.worker w = state →
      Function.update s₀.todo w state.todo = s₀.todo := by
    intro state was
    rw [← todo was, Function.update_eq_self]
  have busy : ∀ {msg}, own.worker w = .handle msg → Function.update s₀.todo w [] = s₀.todo :=
    fun was => sameTodo was
  have sending : ∀ {msg out attempt rest}, own.worker w = .push msg out attempt rest →
      Function.update s₀.opened w [] = s₀.opened := fun was => sameOpened was
  cases effect with
  | @idle next was still =>
      have none : next.opened = [] ∧ next.todo = [] := by
        rcases still with rfl | rfl <;> exact ⟨rfl, rfl⟩
      have first : Function.update s₀.opened w [] = s₀.opened := sameOpened was
      have second : Function.update s₀.todo w [] = s₀.todo := sameTodo was
      rw [sameInbox, none.1, none.2, first, second, ← spool]
      exact .rest s₀
  | @took msg left was front =>
      have idle := sameTodo was
      have second : Function.update s₀.todo w (Worker.handle msg).todo = s₀.todo := idle
      rw [second, ← spool]
      refine .take s₀ w msg.origin (left.map Tagged.origin) ?_ (opened was)
      rw [inbox, front, List.map_cons]
  | @published msg tail was plane results =>
      obtain ⟨noOpened, deliveries⟩ := publishNext_stations msg
        (peer.router.findSubscribers msg.val.type)
      have ds : ∀ subs : List Subscriber, (subs.map fun sub => (msg.origin, sub.dest)) =
          (subs.map Subscriber.dest).map (Prod.mk msg.origin) := by
        intro subs
        rw [List.map_map]
        rfl
      rw [sameInbox, noOpened, deliveries, ds, ← spool, List.filterMap_cons, (returns_silent results).2]
      exact .expand s₀ w msg.origin _ (opened was) (todo was)
  | ignored was plane =>
      rw [sameInbox, ← spool]
      have second := busy was
      exact second.symm ▸ .ignore s₀ w
  | unrouted was plane dest results =>
      rw [sameInbox, ← spool, List.filterMap_cons, (returns_silent results).2]
      exact .expand s₀ w _ [] (opened was) (todo was)
  | @routed msg route was plane dest found =>
      rw [sameInbox, ← spool]
      exact .expand s₀ w msg.origin [route.dest] (opened was) (todo was)
  | @pushed msg out attempt rest tail was room results =>
      obtain ⟨noOpened, deliveries⟩ := publishNext_stations msg (rest.getD [])
      rw [sameInbox, noOpened, deliveries, sending was, List.map_append, ← spool,
        List.filterMap_cons, (returns_silent results).2]
      exact .send s₀ w out.origin _ _ (todo was)
  | @retried msg out attempt rest was =>
      have first : Function.update s₀.opened w (Worker.push msg (movedFrom out) (attempt + 1) rest).opened =
          s₀.opened := sending was
      have kept := sameTodo was
      have second : Function.update s₀.todo w (Worker.push msg (movedFrom out) (attempt + 1) rest).todo =
          s₀.todo := kept
      rw [sameInbox, first, second, ← spool]
      exact .rest s₀
  -- the frames that were still to be pushed go with the one that was dropped
  | gaveUp was results =>
      have first : Function.update s₀.opened w Worker.pop.opened = s₀.opened := sending was
      rw [sameInbox, first, ← spool, (returns_silent results).2]
      exact .cancel s₀ w

theorem WorkerEffect.silent {p : Plane} {s : WorkerStep}
    (effect : WorkerEffect cfg p w own peer s) :
    s.own.filterMap outward = [] ∧ s.peer.filterMap inward = [] := by
  cases effect with
  | published was plane results =>
      exact ⟨rfl, by rw [List.filterMap_cons, (returns_silent results).1]; rfl⟩
  | unrouted was plane dest results =>
      exact ⟨rfl, by rw [List.filterMap_cons, (returns_silent results).1]; rfl⟩
  | pushed was room results =>
      exact ⟨rfl, by rw [List.filterMap_cons, (returns_silent results).1]; rfl⟩
  | gaveUp was results => exact ⟨rfl, (returns_silent results).1⟩
  | _ => exact ⟨rfl, rfl⟩

end Steps

section Runs

variable {cfg : HubConfig} {h post : HubServer} {act : Action} {entries : List Entry}

def HubServer.pipe (h : HubServer) (p : Plane) : Pipe Origin Dest :=
  pipeOf (h.plane p).traffic (h.plane p.peer).traffic

theorem HubEffect.flows (effect : HubEffect cfg h act post entries)
    (genuine : ∀ p, (h.plane p).traffic.Carries (fun msg _ => Genuine msg) Genuine) (p : Plane) :
    Step (shardOf cfg) laneOf (h.pipe p) (signals p entries) (post.pipe p) := by
  have other := Plane.peer_ne p
  cases effect with
  | @listening _ _ q events same silent =>
      have none : signals p (events.map (Prod.mk q)) = [] := by
        by_cases here : q = p
        · subst here
          rw [signals_own]
          exact filterMap_silent fun e member => (listening_silent (silent e member)).1
        · rw [signals_peer here]
          exact filterMap_silent fun e member => (listening_silent (silent e member)).2
      rw [none]
      simp only [HubServer.pipe, same]
      exact .rest _
  | @reactor q i input pl events effect =>
      by_cases here : q = p
      · subst here
        rw [signals_own, HubServer.pipe, HubServer.pipe, HubServer.setPlane_self,
          HubServer.setPlane_other h pl other]
        exact effect.enters (genuine q) _
      · obtain rfl := Plane.eq_peer here
        rw [signals_peer here, HubServer.pipe, HubServer.pipe, HubServer.setPlane_self,
          HubServer.setPlane_other h pl other.symm]
        exact effect.leaves _
  | @distributor q pl events effect =>
      by_cases here : q = p
      · subst here
        rw [signals_own, HubServer.pipe, HubServer.pipe, HubServer.setPlane_self,
          HubServer.setPlane_other h pl other]
        exact effect.enters _
      · obtain rfl := Plane.eq_peer here
        rw [signals_peer here, HubServer.pipe, HubServer.pipe, HubServer.setPlane_self,
          HubServer.setPlane_other h pl other.symm]
        exact effect.leaves _
  | @worker q w s effect =>
      by_cases here : q = p
      · subst here
        rw [signals_append, signals_own, signals_peer other, HubServer.pipe, HubServer.pipe,
          HubServer.setPlane_self, HubServer.setPlane_other _ _ other.symm,
          HubServer.setPlane_self]
        exact effect.crosses
      · obtain rfl := Plane.eq_peer here
        rw [signals_append, signals_peer here, Plane.peer_peer, signals_own, effect.silent.1,
          effect.silent.2, HubServer.pipe, HubServer.pipe, HubServer.setPlane_self,
          HubServer.setPlane_other _ _ other, HubServer.setPlane_self]
        exact .rest _

theorem hubRun_flow {wakeFd : Plane → Nat → Int} {taken : List (Taken HubServer Action Entry)}
    (run : HubRun cfg wakeFd taken h) (p : Plane) :
    Flow (shardOf cfg) laneOf (signals p (trace taken)) (h.pipe p) := by
  refine run.invariant
    (fun history h => Flow (shardOf cfg) laneOf (signals p history) (h.pipe p)) .empty ?_
  intro past pre act post events before flow step
  rw [signals_append]
  exact .snoc flow ((hubRun_effect before step).flows (hubRun_genuine before) p)

end Runs

end HiImCore.Hub
