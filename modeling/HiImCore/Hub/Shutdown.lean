import HiImCore.Hub.Workload

/-! After `Stop`, the threads of both planes come to an end. The health thread, which `Wait` joins
last, is not among them: it may sit in the `recv` of a connection that sends nothing. -/

namespace HiImCore.Hub

open Ranking Transition

section Ranks

def Listener.steps : Listener → Nat
  | .accept => 4
  | .pick _ => 3
  | .push _ _ => 2
  | .notify _ => 1
  | .stopped => 0

def Worker.alive : Worker → Nat
  | .stopped => 0
  | _ => 1

def Worker.publishing : Worker → Nat
  | .push _ _ attempt rest =>
      kMaxRetries - attempt + 1 + (kMaxRetries + 2) * (rest.getD []).length
  | _ => 0

def Distributor.alive : Distributor → Nat
  | .stopped => 0
  | _ => 1

def Distributor.routing : Distributor → Nat
  | .route _ attempt => kMaxRetries - attempt + 2
  | .notify _ => 1
  | _ => 0

namespace PlaneState

variable (cfg : HubConfig) (pl : PlaneState)

def threads : Nat :=
  (if pl.fault then 0 else 1) + pl.listener.steps +
    ∑ w ∈ Finset.range cfg.workers, (pl.worker w).alive + pl.distributor.alive

def publishing : Nat := ∑ w ∈ Finset.range cfg.workers, (pl.worker w).publishing

def distributing : Nat := (kMaxRetries + 3) * pl.distQueue.length + pl.distributor.routing

/-- The work of a plane, from the sockets to the workers and from the peer's workers back to
the sockets. -/
def rank : List Nat :=
  [pl.threads cfg, ∑ i ∈ Finset.range cfg.reactors, pl.unread i,
    ∑ i ∈ Finset.range cfg.reactors, pl.attempts i, pl.received cfg, pl.publishing cfg,
    pl.distributing, ∑ i ∈ Finset.range cfg.reactors, pl.queued i,
    ∑ i ∈ Finset.range cfg.reactors, pl.errands i, ∑ i ∈ Finset.range cfg.reactors, pl.unwritten i]

end PlaneState

variable {cfg : HubConfig} {i : Nat} {pl post : PlaneState} {events : List Event}

section Reactors

theorem Elsewhere.buffers (elsewhere : Elsewhere i pl post) {j : Nat} (other : j ≠ i) :
    post.buffers j = pl.buffers j := by
  funext k
  rw [PlaneState.buffers, PlaneState.buffers, elsewhere.reactor j other]

theorem Eases.rank_falls (eases : Eases cfg i pl post) (inside : i < cfg.reactors) :
    Falls (post.rank cfg) (pl.rank cfg) := by
  have unread := sum_changed inside (f := pl.unread) (g := post.unread) fun j other => by
    simp only [PlaneState.unread, eases.reactor j other, eases.buffers other]
  have attempts := sum_changed inside (f := pl.attempts) (g := post.attempts) fun j other => by
    simp only [PlaneState.attempts, eases.reactor j other]
  have queued := sum_changed inside (f := pl.queued) (g := post.queued) fun j other => by
    simp only [PlaneState.queued, eases.connQueue j other, eases.sendQueue j other]
  have errands := sum_changed inside (f := pl.errands) (g := post.errands) fun j other => by
    simp only [PlaneState.errands, PlaneState.opened, eases.reactor j other, eases.buffers other,
      eases.nextSid]
  have unwritten := sum_changed inside (f := pl.unwritten) (g := post.unwritten) fun j other => by
    have unsent : post.unsent j = pl.unsent j := by
      funext k
      rw [PlaneState.unsent, PlaneState.unsent, eases.reactor j other]
    simp only [PlaneState.unwritten, eases.reactor j other, unsent]
  have falls := eases.falls
  simp only [PlaneState.work, Falls, and_false, or_false] at falls
  simp only [PlaneState.rank, PlaneState.threads, PlaneState.publishing, PlaneState.distributing,
    eases.listener, eases.worker, eases.distributor, eases.distQueue, Falls, and_false, or_false]
  omega

end Reactors

theorem again_stopped (stopped : pl.running = false) : pl.again = .stopped := by
  rw [PlaneState.again, stopped]
  rfl

theorem acceptStep_falls {fd : Int} {nonBlocking : Bool} (stopped : pl.running = false)
    (step : acceptStep fd nonBlocking pl = some (post, events)) :
    Falls (post.rank cfg) (pl.rank cfg) := by
  have less : post.threads cfg < pl.threads cfg := by
    cases acceptStep_accepts step with
    | taken was => simp [PlaneState.threads, was, Listener.steps]
    | blocking was => simp [PlaneState.threads, was, again_stopped stopped, Listener.steps]
  exact .inl less

theorem listenerStep_falls {round : UInt64} (sound : pl.fault = false) (stopped : pl.running = false)
    (step : listenerStep cfg round pl = some (post, events)) :
    Falls (post.rank cfg) (pl.rank cfg) := by
  have resumed := again_stopped stopped
  have less : post.threads cfg < pl.threads cfg := by
    cases listenerStep_listens step with
    | failed was => simp [PlaneState.threads, was, resumed, Listener.steps]
    | picked was => simp [PlaneState.threads, was, Listener.steps]
    | outOfRange was index => simp [PlaneState.threads, sound, Nat.add_assoc]
    | refused was => simp [PlaneState.threads, was, resumed, Listener.steps]
    | queued was index room => simp [PlaneState.threads, was, Listener.steps]
    | notified was => simp [PlaneState.threads, was, resumed, Listener.steps]
  exact .inl less

theorem routed_falls {next : Distributor} {dist : List (Tagged OutboundFrame)}
    {send : Nat → List (Tagged OutboundFrame)} {wake : Nat → Bool}
    (alive : next.alive = pl.distributor.alive)
    (less : (kMaxRetries + 3) * dist.length + next.routing < pl.distributing) :
    Falls (PlaneState.rank cfg
      { pl with distributor := next, distQueue := dist, sendQueue := send, wakeReadable := wake })
      (pl.rank cfg) := by
  have received : PlaneState.received cfg
      { pl with distributor := next, distQueue := dist, sendQueue := send, wakeReadable := wake } =
      pl.received cfg := rfl
  have unread : ∀ i, PlaneState.unread
      { pl with distributor := next, distQueue := dist, sendQueue := send, wakeReadable := wake } i =
      pl.unread i := fun i => rfl
  have attempts : ∀ i, PlaneState.attempts
      { pl with distributor := next, distQueue := dist, sendQueue := send, wakeReadable := wake } i =
      pl.attempts i := fun i => rfl
  simp only [PlaneState.rank, PlaneState.threads, PlaneState.publishing, received, unread, attempts,
    alive, Falls]
  have here : PlaneState.distributing
      { pl with distributor := next, distQueue := dist, sendQueue := send, wakeReadable := wake } <
      pl.distributing := less
  omega

theorem distributorStep_falls (sound : pl.fault = false) (stopped : pl.running = false)
    (step : distributorStep cfg pl = some (post, events)) : Falls (post.rank cfg) (pl.rank cfg) := by
  unfold distributorStep at step
  split at step
  · cases step
  · rename_i was
    split at step
    · cases step
      refine .inl ?_
      simp [PlaneState.threads, was, stopped, Distributor.alive]
    · rename_i popped
      have front := pop_some popped
      cases step
      refine routed_falls (by rw [was]; rfl) ?_
      simp only [PlaneState.distributing, was, front, Distributor.routing, List.length_cons, Nat.mul_succ]
      omega
  · rename_i frame attempt was
    split at step
    · cases step
      refine routed_falls (by rw [was]; rfl) ?_
      simp only [PlaneState.distributing, was, Distributor.routing]
      omega
    · split at step
      · cases step
        refine .inl ?_
        simp [PlaneState.threads, sound, Nat.add_assoc]
      · split at step
        · cases step
          refine routed_falls (by rw [was]; rfl) ?_
          simp only [PlaneState.distributing, was, Distributor.routing]
          omega
        · rename_i again
          obtain ⟨⟨_, more⟩, rfl, rfl⟩ := pushAttempt_retry again
          cases step
          refine routed_falls (by rw [was]; rfl) ?_
          simp only [PlaneState.distributing, was, Distributor.routing]
          omega
        · cases step
          refine routed_falls (by rw [was]; rfl) ?_
          simp only [PlaneState.distributing, was, Distributor.routing]
          omega
  · rename_i was
    cases step
    refine routed_falls (by rw [was]; rfl) ?_
    simp only [PlaneState.distributing, was, Distributor.routing]
    omega

theorem workerStep_lighter {p : Plane} {w : Nat} {own peer : PlaneState} {s : WorkerStep}
    (stopped : own.running = false) (step : workerStep cfg p w own peer = some s) :
    Falls [s.worker.alive, s.worker.inbound s.recvQueue, s.worker.publishing]
      [(own.worker w).alive, (own.worker w).inbound (own.recvQueue w), (own.worker w).publishing] := by
  unfold workerStep at step
  dsimp only at step
  split at step
  · cases step
  · rename_i was
    split at step
    · cases step
      simp [was, stopped, Worker.alive, Falls]
    · rename_i popped
      have front := pop_some popped
      cases step
      simp only [was, front, Worker.alive, Worker.inbound, List.length_cons, Falls]
      omega
  · rename_i msg was
    -- a message weighs two in the queue and one in the hands of a handler
    have handled : ∀ next : Worker, next.alive ≤ 1 → next.inbound (own.recvQueue w) =
        2 * (own.recvQueue w).length →
        Falls [next.alive, next.inbound (own.recvQueue w), next.publishing]
          [(own.worker w).alive, (own.worker w).inbound (own.recvQueue w), (own.worker w).publishing] := by
      intro next alive inbound
      rw [was, inbound]
      change Falls _ [1, 2 * (own.recvQueue w).length + 1, 0]
      simp only [Falls]
      omega
    split at step
    · cases step
      exact handled .pop (Nat.le_refl 1) rfl
    · cases step
      unfold forwardUplinkHandler
      dsimp only
      split
      · exact handled .pop (Nat.le_refl 1) rfl
      · cases peer.router.findSubscribers msg.val.type with
        | nil => exact handled .pop (Nat.le_refl 1) rfl
        | cons sub rest => exact handled (.push ..) (Nat.le_refl 1) rfl
    · cases step
      unfold backendDownlinkHandler
      dsimp only
      split
      · exact handled .pop (Nat.le_refl 1) rfl
      · split
        · exact handled .pop (Nat.le_refl 1) rfl
        · exact handled (.push ..) (Nat.le_refl 1) rfl
  · rename_i msg out attempt rest was
    -- every attempt uses up one of those that the frames of the call have left
    have pushed : ∀ next : Worker, next.alive = 1 → next.inbound (own.recvQueue w) =
        2 * (own.recvQueue w).length → next.publishing < (own.worker w).publishing →
        Falls [next.alive, next.inbound (own.recvQueue w), next.publishing]
          [(own.worker w).alive, (own.worker w).inbound (own.recvQueue w), (own.worker w).publishing] := by
      intro next alive inbound less
      rw [was] at less ⊢
      rw [alive, inbound]
      change Falls _ [1, 2 * (own.recvQueue w).length, _]
      simp only [Falls]
      omega
    split at step
    · split at step
      · cases step
        refine pushed .pop rfl rfl ?_
        simp only [was, Worker.publishing]
        omega
      · rename_i subs
        cases step
        cases subs with
        | nil =>
            refine pushed .pop rfl rfl ?_
            simp only [was, Worker.publishing]
            omega
        | cons sub later =>
            refine pushed (.push ..) rfl rfl ?_
            simp only [was, Worker.publishing, Option.getD_some, List.length_cons, Nat.mul_succ]
            omega
    · rename_i again
      obtain ⟨⟨_, more⟩, rfl, rfl⟩ := pushAttempt_retry again
      cases step
      refine pushed (.push ..) rfl rfl ?_
      simp only [was, Worker.publishing]
      omega
    · cases step
      refine pushed .pop rfl rfl ?_
      simp only [was, Worker.publishing]
      omega

def HubServer.rank (cfg : HubConfig) (h : HubServer) : List Nat :=
  List.zipWith (· + ·) ((h.plane .kForward).rank cfg) ((h.plane .kBackend).rank cfg)

theorem rank_planes (h : HubServer) (p : Plane) :
    h.rank cfg = List.zipWith (· + ·) ((h.plane p).rank cfg) ((h.plane p.peer).rank cfg) := by
  cases p with
  | kForward => rfl
  | kBackend => exact List.zipWith_comm_of_comm Nat.add_comm ..

theorem setPlane_falls {h : HubServer} {p : Plane} (falls : Falls (post.rank cfg) ((h.plane p).rank cfg)) :
    Falls ((h.setPlane p post).rank cfg) (h.rank cfg) := by
  rw [rank_planes _ p, rank_planes h p, HubServer.setPlane_self,
    HubServer.setPlane_other h post (Plane.peer_ne p)]
  exact falls.add (Nat.le_refl 9)

theorem worker_falls {h : HubServer} {p : Plane} {w : Nat} {s : WorkerStep} (inside : w < cfg.workers)
    (lighter : Falls [s.worker.alive, s.worker.inbound s.recvQueue, s.worker.publishing]
      [((h.plane p).worker w).alive, ((h.plane p).worker w).inbound ((h.plane p).recvQueue w),
        ((h.plane p).worker w).publishing]) :
    Falls (((h.setPlane p
      { h.plane p with
        worker := Function.update (h.plane p).worker w s.worker
        recvQueue := Function.update (h.plane p).recvQueue w s.recvQueue }).setPlane p.peer
      { h.plane p.peer with distQueue := s.distQueue }).rank cfg) (h.rank cfg) := by
  rw [rank_planes _ p, rank_planes h p, HubServer.setPlane_self,
    HubServer.setPlane_other _ _ (Plane.peer_ne p).symm, HubServer.setPlane_self]
  generalize h.plane p = own at lighter ⊢
  generalize h.plane p.peer = peer
  have alive := sum_changed inside (f := fun v => (own.worker v).alive)
    (g := fun v => (Function.update own.worker w s.worker v).alive)
    fun v other => by rw [Function.update_of_ne other]
  have inbound := sum_changed inside (f := fun v => (own.worker v).inbound (own.recvQueue v))
    (g := fun v => (Function.update own.worker w s.worker v).inbound
      (Function.update own.recvQueue w s.recvQueue v))
    fun v other => by rw [Function.update_of_ne other, Function.update_of_ne other]
  have publishing := sum_changed inside (f := fun v => (own.worker v).publishing)
    (g := fun v => (Function.update own.worker w s.worker v).publishing)
    fun v other => by rw [Function.update_of_ne other]
  simp only [Function.update_self] at alive inbound publishing
  have unread : ∀ i, PlaneState.unread
      { own with
        worker := Function.update own.worker w s.worker
        recvQueue := Function.update own.recvQueue w s.recvQueue } i = own.unread i := fun _ => rfl
  have attempts : ∀ i, PlaneState.attempts
      { own with
        worker := Function.update own.worker w s.worker
        recvQueue := Function.update own.recvQueue w s.recvQueue } i = own.attempts i := fun _ => rfl
  have beside : ∀ i, PlaneState.unread { peer with distQueue := s.distQueue } i = peer.unread i ∧
      PlaneState.attempts { peer with distQueue := s.distQueue } i = peer.attempts i :=
    fun _ => ⟨rfl, rfl⟩
  simp only [Falls, and_false, or_false] at lighter
  simp only [PlaneState.rank, PlaneState.threads, PlaneState.received, PlaneState.publishing, unread,
    attempts, beside, List.zipWith_cons_cons, Falls]
  omega

/-- The step receives no data, stops no plane, and closes only sessions that are open. -/
def Quiet (h : HubServer) : Action → Prop
  | .reactor _ _ (.recv (.data _)) => False
  | .reactor p i (.next sid) => (((h.plane p).reactor i).sessions sid).isSome = true
  | .stop _ => False
  | _ => True

theorem hubStep_falls {h next : HubServer} {act : Action} {entries : List Entry}
    (agrees : ∀ p, ∃ g, Agrees g (h.plane p).core) (stopped : ∀ p, (h.plane p).running = false)
    (quiet : Quiet h act) (step : hubStep cfg h act = some (next, entries)) :
    Falls (next.rank cfg) (h.rank cfg) := by
  unfold hubStep at step
  split at step
  · cases step
  · rename_i faultless
    have sound : ∀ p, (h.plane p).fault = false := by
      rw [HubServer.sound, Bool.and_eq_false_iff, not_or] at faultless
      intro p
      cases p with
      | kForward => simpa using faultless.1
      | kBackend => simpa using faultless.2
    cases act with
    | accept p fd nonBlocking =>
        dsimp only at step
        split at step
        · obtain ⟨pl, events, done, rfl, rfl⟩ := localStep_some step
          exact setPlane_falls (acceptStep_falls (stopped p) done)
        · cases step
    | listener p =>
        obtain ⟨pl, events, done, rfl, rfl⟩ := localStep_some step
        exact @setPlane_falls cfg pl h p (listenerStep_falls (sound p) (stopped p) done)
    | reactor p i input =>
        dsimp only at step
        split at step
        · rename_i inside
          obtain ⟨pl, events, done, rfl, rfl⟩ := localStep_some step
          obtain ⟨g, agree⟩ := agrees p
          refine setPlane_falls ((reactorStep_eases agree (sound p) (stopped p) ?_ ?_ done).rank_falls inside)
          · rintro bytes rfl
            exact quiet
          · rintro sid rfl
            exact quiet
        · cases step
    | worker p w =>
        dsimp only at step
        split at step
        · rename_i inside
          obtain ⟨s, done, same⟩ := Option.map_eq_some_iff.mp step
          cases same
          exact worker_falls inside (workerStep_lighter (stopped p) done)
        · cases step
    | distributor p =>
        obtain ⟨pl, events, done, rfl, rfl⟩ := localStep_some step
        exact setPlane_falls (distributorStep_falls (sound p) (stopped p) done)
    | stop p => exact quiet.elim

end Ranks

section Ends

variable {cfg : HubConfig} {i : Nat} {pl : PlaneState} {rest : List Task}

theorem reactorStep_enabled (cfg : HubConfig) {task : Task} (top : (pl.reactor i).stack = task :: rest)
    (stopped : pl.running = false) :
    (∃ input, (reactorStep cfg i input pl).isSome = true ∧ (∀ bytes, input ≠ .recv (.data bytes)) ∧
      ∀ sid, input = .next sid → ((pl.reactor i).sessions sid).isSome = true) ∨
    task = .closeAll ∧ ∀ k, (pl.reactor i).sessions k = none := by
  have running : (reactorStep cfg i .run pl).isSome = true →
      ∃ input, (reactorStep cfg i input pl).isSome = true ∧ (∀ bytes, input ≠ .recv (.data bytes)) ∧
        ∀ sid, input = .next sid → ((pl.reactor i).sessions sid).isSome = true :=
    fun enabled => ⟨.run, enabled, by simp, by simp⟩
  cases task with
  | poll => exact .inl (running (by simp only [reactorStep, top, stepPoll, stopped]; rfl))
  | events batch =>
      refine .inl (running ?_)
      simp only [reactorStep, top, stepEvents]
      cases batch <;> rfl
  | drainNewConnections =>
      refine .inl (running ?_)
      simp only [reactorStep, top, stepDrainNew]
      cases pop (pl.connQueue i) <;> rfl
  | drainSendQueue =>
      refine .inl (running ?_)
      simp only [reactorStep, top, stepDrainSend]
      cases pop (pl.sendQueue i) with
      | none => rfl
      | some item =>
          dsimp only
          split <;> rfl
  | handleReadable fd =>
      refine .inl (running ?_)
      simp only [reactorStep, top, stepReadable]
      split
      · rfl
      · split <;> rfl
  | handleWritable fd =>
      refine .inl (running ?_)
      simp only [reactorStep, top, stepWritable]
      split <;> rfl
  | recvLoop k =>
      cases found : (pl.reactor i).sessions k with
      | none => exact .inl (running (by simp [reactorStep, top, stepRecv, found]))
      | some session =>
          refine .inl ⟨.recv .wouldBlock, ?_, by simp, by simp⟩
          simp [reactorStep, top, stepRecv, found]
  | popLoop k =>
      refine .inl (running ?_)
      simp only [reactorStep, top, stepPop]
      cases (pl.reactor i).sessions k with
      | none => rfl
      | some session =>
          dsimp only
          split
          · rfl
          · split <;> rfl
  | pushInbound k msg attempt =>
      refine .inl (running ?_)
      simp only [reactorStep, top, stepPush]
      cases queueIndex cfg.workers (pickWorker cfg msg.val.sid) with
      | none => rfl
      | some w =>
          dsimp only
          split
          · rfl
          · rfl
          · split <;> rfl
  | writeLoop k =>
      cases found : (pl.reactor i).sessions k with
      | none => exact .inl (running (by simp [reactorStep, top, stepWrite, found]))
      | some session =>
          by_cases empty : session.outbuf.isEmpty = true
          · exact .inl (running (by simp [reactorStep, top, stepWrite, found, empty]))
          · refine .inl ⟨.send .wouldBlock, ?_, by simp, by simp⟩
            simp [reactorStep, top, stepWrite, found, empty]
  | closeAll =>
      by_cases none : ∀ k, (pl.reactor i).sessions k = none
      · exact .inr ⟨rfl, none⟩
      · obtain ⟨k, present⟩ := not_forall.mp none
        refine .inl ⟨.next k, by simp [reactorStep, top, stepCloseAll], by simp, ?_⟩
        rintro sid ⟨⟩
        exact Option.isSome_iff_ne_none.mpr present

theorem workerStep_enabled (cfg : HubConfig) (p : Plane) {w : Nat} {own : PlaneState}
    (peer : PlaneState) (alive : own.worker w ≠ .stopped) : (workerStep cfg p w own peer).isSome = true := by
  unfold workerStep
  dsimp only
  split
  · contradiction
  · split <;> rfl
  · split <;> rfl
  · split
    · split <;> rfl
    · rfl
    · rfl

theorem distributorStep_enabled (alive : pl.distributor ≠ .stopped) :
    (distributorStep cfg pl).isSome = true := by
  unfold distributorStep
  split
  · contradiction
  · split <;> rfl
  · split
    · rfl
    · split
      · rfl
      · split <;> rfl
  · rfl

theorem listenerStep_enabled (round : UInt64) (busy : pl.listener ≠ .stopped) :
    (listenerStep cfg round pl).isSome = true := by
  unfold listenerStep
  split
  · contradiction
  · rfl
  · rfl
  · split
    · rfl
    · split <;> rfl
  · rfl

/-- Every thread of either plane has left its loop, and every session is closed. -/
structure HubServer.Ended (cfg : HubConfig) (h : HubServer) : Prop where
  listener : ∀ p, (h.plane p).listener = .stopped
  reactor : ∀ p i, i < cfg.reactors → ((h.plane p).reactor i).stack.head? = some .closeAll ∧
    ∀ k, ((h.plane p).reactor i).sessions k = none
  worker : ∀ p w, w < cfg.workers → (h.plane p).worker w = .stopped
  distributor : ∀ p, (h.plane p).distributor = .stopped

variable {h : HubServer}

theorem ended_of_stuck (sound : h.sound = true) (stopped : ∀ p, (h.plane p).running = false)
    (calls : ∀ p i, ((h.plane p).reactor i).stack ≠ [])
    (stuck : ∀ act, Quiet h act → hubStep cfg h act = none) : h.Ended cfg := by
  have blocked : ∀ {base : HubServer} {result : Option (PlaneState × List Event)} {p : Plane},
      localStep base p result = none → ¬ result.isSome = true := by
    intro base result p none
    rw [localStep, Option.map_eq_none_iff] at none
    rw [none]
    exact Bool.false_ne_true
  constructor
  · intro p
    by_contra busy
    have none := stuck (.listener p) trivial
    simp only [hubStep, sound, Bool.true_eq_false, if_false] at none
    exact blocked none (listenerStep_enabled h.round busy)
  · intro p i inside
    obtain ⟨task, rest, top⟩ := List.exists_cons_of_ne_nil (calls p i)
    rcases reactorStep_enabled cfg top (stopped p) with ⟨input, enabled, quiet, present⟩ | ⟨rfl, none⟩
    · refine absurd enabled (@blocked h _ p ?_)
      have none := stuck (.reactor p i input) ?_
      · simpa only [hubStep, sound, Bool.true_eq_false, if_false, inside, if_true] using none
      · cases input with
        | recv result =>
            cases result with
            | data bytes => exact quiet bytes rfl
            | _ => trivial
        | next sid => exact present sid rfl
        | _ => trivial
    · rw [top]
      exact ⟨rfl, none⟩
  · intro p w inside
    by_contra alive
    have none := stuck (.worker p w) trivial
    simp only [hubStep, sound, Bool.true_eq_false, if_false, inside, if_true, Option.map_eq_none_iff] at none
    have enabled := workerStep_enabled cfg p (h.plane p.peer) alive
    rw [none] at enabled
    cases enabled
  · intro p
    by_contra alive
    have none := stuck (.distributor p) trivial
    simp only [hubStep, sound, Bool.true_eq_false, if_false] at none
    exact blocked none (distributorStep_enabled alive)

end Ends

section Runs

def Rooted (stack : List Task) : Prop :=
  ∃ inner root, stack = inner ++ [root] ∧ (root = .poll ∨ root = .closeAll)

theorem Turn.rooted {i : Nat} {pl mid : PlaneState} {task : Task} {calls : List Task}
    (turn : Turn i pl task mid calls) (root : task = .poll ∨ task = .closeAll) : Rooted calls := by
  cases turn with
  | resumed same resumes =>
      cases resumes with
      | polled batch => exact ⟨[.events batch, .drainSendQueue], .poll, rfl, .inl rfl⟩
      | stopped => exact ⟨[], .closeAll, rfl, .inr rfl⟩
      | nobody => exact ⟨[], .closeAll, rfl, .inr rfl⟩
      | _ => rcases root with same | same <;> cases same
  | reads found face writes reads => cases reads <;> rcases root with same | same <;> cases same
  | sends found face writes some caller =>
      rcases caller with rfl | rfl <;> rcases root with same | same <;> cases same
  | closes found closes ends =>
      cases ends with
      | shutDown => exact ⟨[], .closeAll, rfl, .inr rfl⟩
      | _ => rcases root with same | same <;> cases same
  | _ => rcases root with same | same <;> cases same

theorem Rooted.turn {i : Nat} {pl mid : PlaneState} {task : Task} {calls rest : List Task}
    (rooted : Rooted (task :: rest)) (turn : Turn i pl task mid calls) : Rooted (calls ++ rest) := by
  obtain ⟨inner, root, whole, kind⟩ := rooted
  cases inner with
  | nil =>
      obtain ⟨rfl, rfl⟩ := List.cons.inj whole
      rw [List.append_nil]
      exact turn.rooted kind
  | cons first later =>
      obtain ⟨rfl, rfl⟩ := List.cons.inj whole
      exact ⟨calls ++ later, root, (List.append_assoc ..).symm, kind⟩

variable {cfg : HubConfig} {wakeFd : Plane → Nat → Int}
  {taken : List (Taken HubServer Action Entry)} {h : HubServer}

theorem hubRun_rooted (run : HubRun cfg wakeFd taken h) (p : Plane) (i : Nat) :
    Rooted ((h.plane p).reactor i).stack := by
  refine run.invariant (fun _ h => Rooted ((h.plane p).reactor i).stack)
    ⟨[], .poll, rfl, .inl rfl⟩ ?_
  intro past pre act post events before rooted step
  have planeStep := hubStep_plane p step
  rcases planeStep.reactor (hubRun_follows before p).2 i with same |
    ⟨task, mid, calls, rest, turn, top, same⟩
  · rwa [same]
  · rw [top] at rooted
    rw [same]
    simp only [PlaneState.setStack, PlaneState.setReactor, Function.update_self]
    exact rooted.turn turn

/-- A state that the hub has reached with `Stop` called on both planes. -/
def Stopping (cfg : HubConfig) (wakeFd : Plane → Nat → Int) (h : HubServer) : Prop :=
  (∃ taken, HubRun cfg wakeFd taken h) ∧ ∀ p, (h.plane p).running = false

/-- Some thread takes a step without receiving data. -/
def MovesOn (cfg : HubConfig) (pre post : HubServer) : Prop :=
  ∃ act entries, hubStep cfg pre act = some (post, entries) ∧ Quiet pre act

/-- After `Stop` and unless more data is received, no schedule of the listeners, the reactors, the
workers and the distributors goes on forever, and where none of them can move, all of them have left
their loops and every session is closed, or the run has met undefined behaviour. -/
theorem shutdown_comes_to_an_end (cfg : HubConfig) (wakeFd : Plane → Nat → Int) :
    WellFounded (fun post pre => Stopping cfg wakeFd pre ∧ MovesOn cfg pre post) ∧
      ∀ h, Stopping cfg wakeFd h → (∀ post, ¬ MovesOn cfg h post) →
        h.sound = false ∨ h.Ended cfg := by
  constructor
  · refine wellFounded_of_falls (n := 9) (HubServer.rank cfg) (fun _ => rfl) ?_
    rintro post pre ⟨⟨⟨taken, run⟩, stopped⟩, act, entries, step, quiet⟩
    exact hubStep_falls (fun p => ⟨_, (hubRun_follows run p).2⟩) stopped quiet step
  · rintro h ⟨⟨taken, run⟩, stopped⟩ still
    cases sound : h.sound with
    | false => exact .inl rfl
    | true =>
        refine .inr (ended_of_stuck sound stopped ?_ ?_)
        · intro p i
          obtain ⟨inner, root, whole, _⟩ := hubRun_rooted run p i
          rw [whole]
          exact List.append_ne_nil_of_right_ne_nil inner (List.cons_ne_nil root [])
        · intro act quiet
          cases step : hubStep cfg h act with
          | none => rfl
          | some result => exact absurd ⟨act, result.2, step, quiet⟩ (still result.1)

end Runs

end HiImCore.Hub
