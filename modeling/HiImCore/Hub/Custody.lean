import HiImCore.Hub.Addressing
import HiImCore.Hub.Content
import HiImCore.Hub.Intake
import HiImCore.Lib.Custody

/-! No business frame is lost unless a push gives up: every frame that a reactor has taken is on
its way, or its destinations have been looked up, and every frame for a destination is on its
way or has been taken by the destination's reactor. -/

namespace HiImCore.Hub

open Pipeline Transition Wire

/-- The step makes the last attempt of a `PushWithBackoff` and finds the queue full. -/
def GivesUp (cfg : HubConfig) (x : Taken HubServer Action Entry) : Prop :=
  match x.act with
  | .reactor p i _ => ∃ sid msg attempt rest w,
      ((x.pre.plane p).reactor i).stack = .pushInbound sid msg attempt :: rest ∧
        kMaxRetries ≤ attempt ∧
        queueIndex cfg.workers (pickWorker cfg msg.val.sid) = some w ∧
        cfg.queueCapacity ≤ ((x.pre.plane p).recvQueue w).length
  | .worker p w => ∃ msg out attempt rest,
      (x.pre.plane p).worker w = .push msg out attempt rest ∧ kMaxRetries ≤ attempt ∧
        cfg.queueCapacity ≤ (x.pre.plane p.peer).distQueue.length
  | .distributor p => ∃ frame attempt j,
      (x.pre.plane p).distributor = .route frame attempt ∧ kMaxRetries ≤ attempt ∧
        queueIndex cfg.reactors frame.val.reactorIdx = some j ∧
        cfg.queueCapacity ≤ ((x.pre.plane p).sendQueue j).length
  | _ => False

/-- `BackendDownlinkHandler` has ignored the message: the payload that reached it names no nid. -/
def Ignored (p : Plane) (history : List Entry) (o : Origin) : Prop :=
  p = .kBackend ∧ ∃ w msg, (p, .recvPopped w msg) ∈ history ∧ msg.origin = o ∧
    Im.readDestNid msg.val.payload = 0

/-- The step is a retry of `EnqueueInbound` that finds room: it pushes a message that the first
attempt has moved from. -/
def PushesRetried (cfg : HubConfig) (p : Plane) (o : Origin) (x : Taken HubServer Action Entry) :
    Prop :=
  ∃ i input sid msg attempt rest w, x.act = .reactor p i input ∧
    ((x.pre.plane p).reactor i).stack = .pushInbound sid msg (attempt + 1) :: rest ∧
    msg.origin = o ∧ queueIndex cfg.workers (pickWorker cfg msg.val.sid) = some w ∧
    ((x.pre.plane p).recvQueue w).length < cfg.queueCapacity

/-- `BackendDownlinkHandler` has ignored the message of this frame: the frame was received without
a nid in its payload, or a retried push has lost the payload. -/
def PutAside (cfg : HubConfig) (p : Plane) (taken : List (Taken HubServer Action Entry)) (o : Origin) :
    Prop :=
  Ignored p (trace taken) o ∧
    (Im.readDestNid o.frame.payload = 0 ∨ ∃ x ∈ taken, PushesRetried cfg p o x)

section Unchanged

variable {cfg : HubConfig} {h post : HubServer} {act : Action} {entries : List Entry} {p : Plane}

theorem ReactorEffect.aside {i : Nat} {pl : PlaneState} {events : List Event} {t : Traffic}
    (effect : ReactorEffect cfg i pl events t) :
    t.worker = pl.worker ∧ t.distributor = pl.distributor ∧ t.distQueue = pl.distQueue := by
  cases effect <;> exact ⟨rfl, rfl, rfl⟩

theorem DistributorEffect.aside {pl : PlaneState} {events : List Event} {t : Traffic}
    (effect : DistributorEffect cfg pl events t) :
    t.hand = pl.traffic.hand ∧ t.worker = pl.worker := by
  cases effect <;> exact ⟨rfl, rfl⟩

theorem HubEffect.hand_kept (effect : HubEffect cfg h act post entries)
    (other : ∀ i input, act ≠ .reactor p i input) :
    (post.plane p).traffic.hand = (h.plane p).traffic.hand := by
  cases effect with
  | listening same silent => exact congrArg Traffic.hand (same p)
  | @reactor q i input pl events effect =>
      rw [HubServer.setPlane_other]
      rintro rfl
      exact other i input rfl
  | @distributor q pl events effect =>
      exact HubServer.forall_setPlane (P := fun q pl => pl.traffic.hand = (h.plane q).traffic.hand)
        effect.aside.1 (fun _ => rfl) p
  | @worker q w s effect =>
      refine HubServer.forall_setPlanes
        (P := fun q pl => pl.traffic.hand = (h.plane q).traffic.hand) ?_ ?_ p <;> rfl

theorem HubEffect.worker_kept (effect : HubEffect cfg h act post entries)
    (other : ∀ w, act ≠ .worker p w) : (post.plane p).worker = (h.plane p).worker := by
  cases effect with
  | listening same silent => exact congrArg Traffic.worker (same p)
  | @reactor q i input pl events effect =>
      exact HubServer.forall_setPlane (P := fun q pl => pl.traffic.worker = (h.plane q).worker)
        effect.aside.1 (fun _ => rfl) p
  | @distributor q pl events effect =>
      exact HubServer.forall_setPlane (P := fun q pl => pl.traffic.worker = (h.plane q).worker)
        effect.aside.2 (fun _ => rfl) p
  | @worker q w s effect =>
      by_cases own : p = q
      · subst own
        exact absurd rfl (other w)
      · obtain rfl := Plane.eq_peer own
        rw [HubServer.setPlane_self]

theorem HubEffect.distributor_kept (effect : HubEffect cfg h act post entries)
    (other : act ≠ .distributor p) : (post.plane p).distributor = (h.plane p).distributor := by
  cases effect with
  | listening same silent => exact congrArg Traffic.distributor (same p)
  | @reactor q i input pl events effect =>
      exact HubServer.forall_setPlane
        (P := fun q pl => pl.traffic.distributor = (h.plane q).distributor) effect.aside.2.1
        (fun _ => rfl) p
  | @distributor q pl events effect =>
      rw [HubServer.setPlane_other]
      rintro rfl
      exact other rfl
  | @worker q w s effect =>
      refine HubServer.forall_setPlanes
        (P := fun q pl => pl.distributor = (h.plane q).distributor) ?_ ?_ p <;> rfl

end Unchanged

section Steps

variable {cfg : HubConfig} {wakeFd : Plane → Nat → Int} {taken : List (Taken HubServer Action Entry)}
  {h post : HubServer} {act : Action} {entries : List Entry} {p : Plane}

theorem stepPush_holds {i sid attempt : Nat} {input : ReactorInput} {pl after : PlaneState}
    {rest : List Task} {msg : Tagged InboundMessage} {events : List Event}
    (step : stepPush cfg i input pl rest sid msg attempt = some (after, events))
    (sure : ∀ w, queueIndex cfg.workers (pickWorker cfg msg.val.sid) = some w →
      kMaxRetries ≤ attempt → ¬ cfg.queueCapacity ≤ (pl.recvQueue w).length) :
    .recvPushed (msg.val.sid % cfg.workers) msg ∈ events ∨
      (after.reactor i).stack = .pushInbound sid (movedFrom msg) (attempt + 1) :: rest := by
  unfold stepPush at step
  rw [queueIndex_pickWorker] at step sure
  split at step
  · rename_i bad
    cases bad
  · rename_i w index
    obtain rfl := Option.some.inj index
    split at step
    · cases step
      exact .inl (List.mem_singleton.mpr rfl)
    · rename_i again
      obtain ⟨_, rfl, rfl⟩ := pushAttempt_retry again
      cases step
      right
      simp only [PlaneState.setStack, PlaneState.setReactor, Function.update_self]
    · rename_i failed
      obtain ⟨full, last⟩ := pushAttempt_gaveUp failed
      exact absurd full (sure _ rfl last)
  · cases step

theorem held_top {pl : PlaneState} {i attempt : Nat} {msg : Tagged InboundMessage}
    (shaped : (pl.reactor i).Shaped) (held : (msg, attempt) ∈ pl.traffic.hand i) :
    ∃ sid rest, (pl.reactor i).stack = .pushInbound sid msg attempt :: rest := by
  obtain ⟨task, member, inHand⟩ := List.mem_filterMap.mp held
  cases shape : (pl.reactor i).stack with
  | nil =>
      rw [shape] at member
      cases member
  | cons top rest =>
      rw [shape] at member
      rcases List.mem_cons.mp member with rfl | inside
      · cases task <;> cases inHand
        exact ⟨_, rest, rfl⟩
      · rw [shaped task (by rw [shape]; exact inside)] at inHand
        cases inHand

theorem ReactorEffect.other_hands {i j : Nat} {pl : PlaneState} {events : List Event} {t : Traffic}
    (effect : ReactorEffect cfg i pl events t) (other : j ≠ i) : t.hand j = pl.traffic.hand j := by
  cases effect <;> first | rfl | exact Function.update_of_ne other ..

theorem hand_keeps (run : HubRun cfg wakeFd taken h)
    (step : hubStep cfg h act = some (post, entries)) (sure : ¬ GivesUp cfg ⟨h, act, entries⟩)
    (p : Plane) (i : Nat) (o : Origin) (held : o ∈ (h.pipe p).hand i) :
    o ∈ (post.pipe p).hand i ∨ .admitted (shardOf cfg o) o ∈ signals p entries := by
  have effect := hubRun_effect run step
  rcases hubStep_reactor (hubRun_shaped run) step p with ⟨j, input, rfl, inside⟩ | ⟨other, _, _⟩
  · by_cases own : i = j
    · subst own
      obtain ⟨⟨msg, attempt⟩, member, rfl⟩ := List.mem_map.mp held
      obtain ⟨sid, rest, top⟩ := held_top (hubRun_shaped run p i) member
      unfold reactorStep at inside
      rw [top] at inside
      have holds := stepPush_holds inside fun w index last full =>
        sure ⟨sid, msg, attempt, rest, w, top, last, index, full⟩
      rcases holds with pushed | stack
      · right
        have genuine := (hubRun_genuine run p).hand i msg attempt member
        rw [shardOf, ← genuine.1]
        exact mem_signals.mpr (.inl ⟨_, mem_onPlane.mp pushed, rfl⟩)
      · left
        refine List.mem_map.mpr ⟨(movedFrom msg, attempt + 1), ?_, rfl⟩
        refine List.mem_filterMap.mpr ⟨.pushInbound sid (movedFrom msg) (attempt + 1), ?_, rfl⟩
        rw [stack]
        exact List.mem_cons_self
    · left
      obtain ⟨moves, _⟩ := reactorStep_moves (hubRun_shaped run p) inside
      have same : (post.pipe p).hand i = (h.pipe p).hand i := by
        simp only [HubServer.pipe, pipeOf]
        rw [moves.other_hands own]
      rwa [same]
  · left
    have same : (post.pipe p).hand = (h.pipe p).hand := by
      simp only [HubServer.pipe, pipeOf]
      rw [effect.hand_kept other]
    rwa [same]

theorem workerStep_handles {w : Nat} {own peer : PlaneState} {s : WorkerStep}
    {msg : Tagged InboundMessage} (step : workerStep cfg p w own peer = some s)
    (busy : own.worker w = .handle msg) :
    (∃ e ds, e ∈ s.peer ∧ outward e = some (.expanded msg.origin ds)) ∨
      (p = .kBackend ∧ Im.readDestNid msg.val.payload = 0) := by
  unfold workerStep at step
  simp only [busy, chooseHandler_eq] at step
  cases p with
  | kForward =>
      cases step
      simp only [forwardUplinkHandler]
      split <;> exact .inl ⟨_, _, List.mem_cons_self, rfl⟩
  | kBackend =>
      cases step
      simp only [backendDownlinkHandler]
      split
      · exact .inr ⟨trivial, ‹_›⟩
      · split <;> exact .inl ⟨_, _, List.mem_cons_self, rfl⟩

theorem workerStep_sends {w attempt : Nat} {own peer : PlaneState} {s : WorkerStep}
    {msg : Tagged InboundMessage} {out : Tagged OutboundFrame} {rest : Option (List Subscriber)}
    (step : workerStep cfg p w own peer = some s) (busy : own.worker w = .push msg out attempt rest)
    (sure : kMaxRetries ≤ attempt → ¬ cfg.queueCapacity ≤ peer.distQueue.length) :
    ∀ x ∈ (own.worker w).todo, x ∈ s.worker.todo ∨
      ∃ e ∈ s.peer, outward e = some (.spooled x.1 x.2) := by
  intro x due
  rw [busy] at due
  have later : ∀ {subs : List Subscriber}, rest.getD [] = subs →
      x ∈ (Worker.push msg out attempt rest).todo → x = frameLabel out ∨ x ∈ (publishNext msg subs).1.todo := by
    intro subs same member
    rw [(publishNext_stations msg subs).2, ← same]
    exact List.mem_cons.mp member
  unfold workerStep at step
  simp only [busy] at step
  split at step
  · split at step
    · cases step
      rcases later rfl due with rfl | more
      · exact .inr ⟨_, List.mem_cons_self, rfl⟩
      · cases more
    · cases step
      rcases later rfl due with rfl | more
      · exact .inr ⟨_, List.mem_cons_self, rfl⟩
      · exact .inl more
  · rename_i again
    obtain ⟨_, rfl, rfl⟩ := pushAttempt_retry again
    cases step
    exact .inl due
  · rename_i failed
    obtain ⟨full, last⟩ := pushAttempt_gaveUp failed
    exact absurd full (sure last)

theorem hubStep_worker (run : HubRun cfg wakeFd taken h)
    (step : hubStep cfg h act = some (post, entries)) (p : Plane) (w : Nat) :
    (post.plane p).worker w = (h.plane p).worker w ∨ act = .worker p w ∧
      ∃ s, workerStep cfg p w (h.plane p) (h.plane p.peer) = some s ∧
        (post.plane p).worker w = s.worker ∧
        entries = s.own.map (Prod.mk p) ++ s.peer.map (Prod.mk p.peer) := by
  by_cases own : ∃ v, act = .worker p v
  · obtain ⟨v, rfl⟩ := own
    unfold hubStep at step
    split at step
    · cases step
    · dsimp only at step
      split at step
      · obtain ⟨s, done, same⟩ := Option.map_eq_some_iff.mp step
        cases same
        rw [HubServer.setPlane_other _ _ (Plane.peer_ne p).symm, HubServer.setPlane_self]
        dsimp only
        by_cases here : w = v
        · subst here
          exact .inr ⟨rfl, s, done, Function.update_self .., rfl⟩
        · exact .inl (Function.update_of_ne here ..)
      · cases step
  · left
    rw [(hubRun_effect run step).worker_kept fun v same => own ⟨v, same⟩]

theorem workerStep_opens {w : Nat} {own peer : PlaneState} {s : WorkerStep}
    {msg : Tagged InboundMessage} (step : workerStep cfg p w own peer = some s)
    (busy : s.worker = .handle msg) : .recvPopped w msg ∈ s.own := by
  have published : ∀ (other : Tagged InboundMessage) (subs : List Subscriber),
      (publishNext other subs).1 ≠ .handle msg := by
    intro other subs
    cases subs <;> simp [publishNext]
  unfold workerStep at step
  simp only [chooseHandler_eq, forwardUplinkHandler, backendDownlinkHandler] at step
  cases was : own.worker w with
  | stopped => simp [was] at step
  | pop =>
      simp only [was] at step
      split at step
      · cases step
        dsimp only at busy
        split at busy <;> cases busy
      · cases step
        cases busy
        exact List.mem_singleton.mpr rfl
  | handle earlier =>
      simp only [was] at step
      cases p <;> cases step <;> dsimp only at busy <;> split at busy
      · cases busy
      · exact absurd busy (published _ _)
      · cases busy
      · split at busy <;> cases busy
  | push earlier out attempt rest =>
      simp only [was] at step
      split at step
      · split at step <;> cases step
        · cases busy
        · exact absurd busy (published _ _)
      · cases step
        cases busy
      · cases step
        cases busy

theorem handle_popped (run : HubRun cfg wakeFd taken h) : ∀ p w msg,
    (h.plane p).worker w = .handle msg → (p, .recvPopped w msg) ∈ trace taken := by
  refine run.invariant (fun history h => ∀ p w msg,
    (h.plane p).worker w = .handle msg → (p, .recvPopped w msg) ∈ history) ?_ ?_
  · intro p w msg busy
    cases busy
  · intro past pre act post events before popped step p w msg busy
    rw [List.mem_append]
    rcases hubStep_worker before step p w with same | ⟨_, s, inside, worker, rfl⟩
    · rw [same] at busy
      exact .inl (popped p w msg busy)
    · rw [worker] at busy
      exact .inr (List.mem_append_left _ (List.mem_map_of_mem (workerStep_opens inside busy)))

theorem opened_keeps (run : HubRun cfg wakeFd taken h)
    (step : hubStep cfg h act = some (post, entries)) (p : Plane) (w : Nat) (o : Origin)
    (opened : o ∈ (h.pipe p).opened w) :
    o ∈ (post.pipe p).opened w ∨ (∃ ds, .expanded o ds ∈ signals p entries) ∨
      Ignored p (trace taken) o := by
  have before : (h.pipe p).opened w = ((h.plane p).worker w).opened := rfl
  have after : (post.pipe p).opened w = ((post.plane p).worker w).opened := rfl
  rw [before] at opened
  rw [after]
  rcases hubStep_worker run step p w with same | ⟨_, s, inside, _, rfl⟩
  · rw [same]
    exact .inl opened
  · cases busy : (h.plane p).worker w with
    | handle msg =>
        rw [busy] at opened
        obtain rfl := List.mem_singleton.mp opened
        rcases workerStep_handles inside busy with ⟨e, ds, shown, looks⟩ | ⟨backend, none⟩
        · refine .inr (.inl ⟨ds, mem_of_outward ?_ looks⟩)
          exact List.mem_append_right _ (List.mem_map_of_mem shown)
        · exact .inr (.inr ⟨backend, w, msg, handle_popped run p w msg busy, rfl, none⟩)
    | _ =>
        rw [busy] at opened
        cases opened

theorem todo_keeps (run : HubRun cfg wakeFd taken h)
    (step : hubStep cfg h act = some (post, entries)) (sure : ¬ GivesUp cfg ⟨h, act, entries⟩)
    (p : Plane) (w : Nat) (x : Origin × Dest) (due : x ∈ (h.pipe p).todo w) :
    x ∈ (post.pipe p).todo w ∨ .spooled x.1 x.2 ∈ signals p entries := by
  have before : (h.pipe p).todo w = ((h.plane p).worker w).todo := rfl
  have after : (post.pipe p).todo w = ((post.plane p).worker w).todo := rfl
  rw [before] at due
  rw [after]
  rcases hubStep_worker run step p w with same | ⟨rfl, s, inside, worker, rfl⟩
  · rw [same]
    exact .inl due
  · cases busy : (h.plane p).worker w with
    | push msg out attempt rest =>
        have sends := workerStep_sends inside busy fun last full =>
          sure ⟨msg, out, attempt, rest, busy, last, full⟩
        rw [worker]
        rcases sends x due with still | ⟨e, shown, passes⟩
        · exact .inl still
        · refine .inr (mem_of_outward ?_ passes)
          exact List.mem_append_right _ (List.mem_map_of_mem shown)
    | _ =>
        rw [busy] at due
        cases due

theorem distributorStep_posts {pl after : PlaneState} {events : List Event} {attempt j : Nat}
    {frame : Tagged OutboundFrame} (step : distributorStep cfg pl = some (after, events))
    (busy : pl.distributor = .route frame attempt) (positive : 0 ≤ frame.val.reactorIdx)
    (index : queueIndex cfg.reactors frame.val.reactorIdx = some j)
    (sure : kMaxRetries ≤ attempt → ¬ cfg.queueCapacity ≤ (pl.sendQueue j).length) :
    .sendPushed j frame ∈ events ∨
      after.distributor = .route (movedFrom frame) (attempt + 1) := by
  unfold distributorStep at step
  simp only [busy, if_neg (not_lt.mpr positive), index] at step
  split at step
  · cases step
    exact .inl (List.mem_singleton.mpr rfl)
  · rename_i again
    obtain ⟨_, rfl, rfl⟩ := pushAttempt_retry again
    cases step
    exact .inr rfl
  · rename_i failed
    obtain ⟨full, last⟩ := pushAttempt_gaveUp failed
    exact absurd full (sure last)

theorem hubStep_distributor (step : hubStep cfg h (.distributor p) = some (post, entries)) :
    ∃ events, distributorStep cfg (h.plane p) = some (post.plane p, events) ∧
      entries = events.map (Prod.mk p) := by
  unfold hubStep at step
  split at step
  · cases step
  · obtain ⟨pl, events, done, rfl, rfl⟩ := localStep_some step
    rw [HubServer.setPlane_self]
    exact ⟨events, done, rfl⟩

theorem relay_keeps (run : HubRun cfg wakeFd taken h)
    (step : hubStep cfg h act = some (post, entries)) (sure : ¬ GivesUp cfg ⟨h, act, entries⟩)
    (p : Plane) (x : Origin × Dest) (held : x ∈ (h.pipe p).relay) :
    x ∈ (post.pipe p).relay ∨ .posted (laneOf x.2) x.1 x.2 ∈ signals p entries := by
  have before : (h.pipe p).relay = (h.plane p.peer).distributor.relay := rfl
  have after : (post.pipe p).relay = (post.plane p.peer).distributor.relay := rfl
  rw [before] at held
  rw [after]
  by_cases own : act = .distributor p.peer
  · subst own
    cases busy : (h.plane p.peer).distributor with
    | route frame attempt =>
        rw [busy] at held
        obtain rfl := List.mem_singleton.mp held
        have housed := distributor_housed run busy
        obtain ⟨events, inside, rfl⟩ := hubStep_distributor step
        have posts := distributorStep_posts inside busy housed.inRange.1 housed.index
          fun last full => sure ⟨frame, attempt, _, busy, last, housed.index, full⟩
        rcases posts with posted | routes
        · exact .inr (mem_of_outward (List.mem_map_of_mem posted) rfl)
        · rw [routes]
          exact .inl (List.mem_singleton.mpr rfl)
    | _ =>
        rw [busy] at held
        cases held
  · rw [(hubRun_effect run step).distributor_kept own]
    exact .inl held

theorem hubStep_keeps (run : HubRun cfg wakeFd taken h)
    (step : hubStep cfg h act = some (post, entries)) (sure : ¬ GivesUp cfg ⟨h, act, entries⟩)
    (p : Plane) :
    Keeps (shardOf cfg) laneOf (Ignored p (trace taken)) (h.pipe p) (signals p entries)
      (post.pipe p) where
  hand := hand_keeps run step sure p
  opened := opened_keeps run step p
  todo := todo_keeps run step sure p
  relay := relay_keeps run step sure p

theorem Ignored.mono {history more : List Entry} {o : Origin} (ignored : Ignored p history o) :
    Ignored p (history ++ more) o := by
  obtain ⟨backend, w, msg, popped, rest⟩ := ignored
  exact ⟨backend, w, msg, List.mem_append_left _ popped, rest⟩

theorem hubRun_custody (run : HubRun cfg wakeFd taken h)
    (sure : Within (fun x => ¬ GivesUp cfg x) taken) (p : Plane) :
    Custody (Ignored p (trace taken)) (signals p (trace taken)) (h.pipe p) := by
  refine run.invariant_within (fun x => ¬ GivesUp cfg x)
    (fun history h => Custody (Ignored p history) (signals p history) (h.pipe p)) ?_ ?_ sure
  · exact custody_empty
  · intro past pre act post events before _ custody keep step
    have flows := (hubRun_effect before step).flows (hubRun_genuine before) p
    rw [signals_append]
    exact (custody.step flows (hubStep_keeps before step keep p)).mono fun o => Ignored.mono

theorem HubEffect.popped {q : Plane} {v : Nat} {msg : Tagged InboundMessage}
    (effect : HubEffect cfg h act post entries) (seen : (q, .recvPopped v msg) ∈ entries) :
    ∃ w, msg ∈ (h.plane q).recvQueue w := by
  obtain ⟨p, w, s, _, inside, ⟨rfl, own⟩ | ⟨_, peer⟩⟩ := effect.of_worker seen rfl
  · cases inside with
    | took was front =>
        cases List.mem_singleton.mp own
        refine ⟨v, ?_⟩
        rw [front]
        exact List.mem_cons_self
    | _ => cases own
  · cases inside with
    | published was plane results | unrouted was plane dest results =>
        rcases List.mem_cons.mp peer with same | rest
        · cases same
        · obtain ⟨status, same⟩ := results _ rest
          cases same
    | pushed was room results =>
        rcases List.mem_cons.mp peer with same | rest
        · cases same
        · obtain ⟨status, same⟩ := results _ rest
          cases same
    | routed was plane dest found => cases List.mem_singleton.mp peer
    | gaveUp was results =>
        obtain ⟨status, same⟩ := results _ peer
        cases same
    | _ => cases peer

def PayloadKept (p : Plane) (o : Origin) (q : Plane) (msg : Tagged InboundMessage) : Prop :=
  q = p → msg.origin = o → msg.val.payload = o.frame.payload

theorem popped_kept_or_retried (run : HubRun cfg wakeFd taken h) {v : Nat}
    {msg : Tagged InboundMessage} (seen : (p, .recvPopped v msg) ∈ trace taken) :
    msg.val.payload = msg.origin.frame.payload ∨ ∃ x ∈ taken, PushesRetried cfg p msg.origin x := by
  by_contra lost
  obtain ⟨changed, never⟩ := not_or.mp lost
  have kept := run.invariant_within (fun x => ¬ PushesRetried cfg p msg.origin x)
    (fun history h => (∀ q, (h.plane q).traffic.Carries HeldExact (PayloadKept p msg.origin q)) ∧
      ∀ v other, (p, .recvPopped v other) ∈ history → PayloadKept p msg.origin p other) ?_ ?_
    fun x member retried => never ⟨x, member, retried⟩
  · exact changed (kept.2 v msg seen rfl rfl)
  · exact ⟨carries_init (H := fun _ => HeldExact) (Q := PayloadKept p msg.origin) wakeFd, by simp⟩
  · rintro past pre act post events before _ ⟨carries, popped⟩ keep step
    have effect := hubRun_effect before step
    refine ⟨effect.carries (H := fun _ => HeldExact) (Q := PayloadKept p msg.origin) carries ?_ ?_ ?_, ?_⟩
    · exact fun q i session frame => ⟨rfl, rfl⟩
    · rintro q other attempt ⟨type, _⟩
      exact ⟨type, rfl⟩
    · rintro q i input other attempt w rfl held index room ⟨_, payload⟩ rfl same
      cases attempt with
      | zero => rw [← same]; exact payload
      | succ attempt =>
          obtain ⟨sid, rest, top⟩ := hand_top (hubRun_shaped before q i) held
          exact absurd ⟨i, input, sid, other, attempt, rest, w, rfl, top, same, index, room⟩ keep
    · intro v other member
      rcases List.mem_append.mp member with early | late
      · exact popped v other early
      · obtain ⟨w, queued⟩ := effect.popped late
        exact (carries p).queue w other queued

theorem Ignored.putAside (run : HubRun cfg wakeFd taken h) {o : Origin}
    (ignored : Ignored p (trace taken) o) : PutAside cfg p taken o := by
  refine ⟨ignored, ?_⟩
  obtain ⟨_, w, msg, seen, rfl, nobody⟩ := ignored
  rcases popped_kept_or_retried run seen with kept | retried
  · rw [kept] at nobody
    exact .inl nobody
  · exact .inr retried

theorem arrived_of_received {history : List Entry} {o : Origin}
    (received : o ∈ receivedFrames p history) : ∃ i, .arrived i o ∈ signals p history := by
  obtain ⟨e, member, shown⟩ := List.mem_filterMap.mp received
  cases e <;> cases shown
  exact ⟨_, mem_signals.mpr (.inl ⟨_, mem_onPlane.mp member, rfl⟩)⟩

theorem popped_of_delivered {history : List Entry} {l : Nat} {o : Origin} {d : Dest}
    (delivered : .delivered l o d ∈ signals p history) :
    ∃ frame ∈ poppedFrames p.peer history, frameLabel frame = (o, d) := by
  rcases mem_signals.mp delivered with ⟨e, member, shown⟩ | ⟨e, member, shown⟩
  · cases e <;> cases shown
  · cases e <;> cases shown
    exact ⟨_, List.mem_filterMap.mpr ⟨_, mem_onPlane.mpr member, rfl⟩, rfl⟩

/-- As long as no push gives up, the hub loses no business frame. Every frame that a reactor has
taken from a session still waits for a worker, was put aside for naming no destination when it was
received or after a retried push, or had its destinations looked up; and for each of these the frame
is on its way, or the reactors of the other plane have taken it from their queues exactly once. -/
theorem no_frame_is_lost_unless_a_push_gives_up (run : HubRun cfg wakeFd taken h)
    (sure : Within (fun x => ¬ GivesUp cfg x) taken) (p : Plane) (o : Origin)
    (received : o ∈ receivedFrames p (trace taken)) :
    (h.pipe p).Waits o ∨ PutAside cfg p taken o ∨
      ∃ e ds, (p.peer, e) ∈ trace taken ∧ outward e = some (.expanded o ds) ∧
        ∀ d ∈ ds, (h.pipe p).Travels (o, d) ∨
          ((poppedFrames p.peer (trace taken)).filter
            fun frame => frame.origin == o && frame.val.sid == d.sid).length = 1 := by
  have custody := hubRun_custody run sure p
  obtain ⟨i, arrived⟩ := arrived_of_received received
  rcases custody.message i o arrived with waits | ⟨ds, expanded⟩ | ignored
  · exact .inl waits
  · obtain ⟨e, seen, looks⟩ := lookup_of_expanded expanded
    refine .inr (.inr ⟨e, ds, seen, looks, fun d named => ?_⟩)
    rcases custody.delivery o ds d expanded named with travels | ⟨l, delivered⟩
    · exact .inl travels
    · right
      have once := popped_once (p := p) run o (·.sid == d.sid) fun e ds seen looks =>
        single_destination (lookup_nodup run seen looks) d.sid
      have some : 0 < ((poppedFrames p.peer (trace taken)).filter
          fun frame => frame.origin == o && frame.val.sid == d.sid).length := by
        obtain ⟨frame, popped, label⟩ := popped_of_delivered delivered
        have same := Prod.mk.inj label
        refine List.length_pos_of_mem (List.mem_filter.mpr ⟨popped, ?_⟩)
        rw [← same.1, ← same.2]
        simp
      exact Nat.le_antisymm once some
  · exact .inr (.inl (ignored.putAside run))

def insists (x : Taken HubServer Action Entry) : Bool :=
  match x.act with
  | .reactor p i _ =>
      match ((x.pre.plane p).reactor i).stack with
      | .pushInbound _ _ attempt :: _ => decide (attempt < kMaxRetries)
      | _ => true
  | .worker p w =>
      match (x.pre.plane p).worker w with
      | .push _ _ attempt _ => decide (attempt < kMaxRetries)
      | _ => true
  | .distributor p =>
      match (x.pre.plane p).distributor with
      | .route _ attempt => decide (attempt < kMaxRetries)
      | _ => true
  | _ => true

theorem insists_sure {x : Taken HubServer Action Entry} (more : insists x = true) :
    ¬ GivesUp cfg x := by
  obtain ⟨pre, act, events⟩ := x
  cases act with
  | reactor p i input =>
      rintro ⟨sid, msg, attempt, rest, w, top, last, _⟩
      simp only [insists, show (pre.plane p |>.reactor i).stack = _ from top, decide_eq_true_eq] at more
      omega
  | worker p w =>
      rintro ⟨msg, out, attempt, rest, busy, last, _⟩
      simp only [insists, show (pre.plane p).worker w = _ from busy, decide_eq_true_eq] at more
      omega
  | distributor p =>
      rintro ⟨frame, attempt, j, busy, last, _⟩
      simp only [insists, show (pre.plane p).distributor = _ from busy, decide_eq_true_eq] at more
      omega
  | _ => exact id

def crowdingBack : List Action :=
  let frame := businessFrame (Im.packPayload 9 0 1 0 [])
  let arrive : List ReactorInput :=
    [.poll [⟨6, true, false⟩], .run, .run, .recv (.data (frame ++ frame)), .run, .run, .run, .run]
  linked ++ arrive.map (Action.reactor .kBackend 0) ++
    [.worker .kBackend 0, .reactor .kBackend 0 .run] ++ List.replicate 4 (.worker .kBackend 0)

def popsBare (o : Origin) (entry : Entry) : Bool :=
  match entry with
  | (.kBackend, .recvPopped _ msg) => msg.origin == o && msg.val.payload.isEmpty
  | _ => false

/-- The first frame of the forward client was taken by the subscriber's reactor once. The second
frame of the backend client names a connected nid and was put aside: its payload was lost. -/
theorem no_frame_is_lost_unless_a_push_gives_up_published :
    (∃ taken h o, HubRun (smallConfig 4) smallWakeFd taken h ∧
      o ∈ receivedFrames .kForward (trace taken) ∧
      ((h.pipe .kForward).Waits o ∨ PutAside (smallConfig 4) .kForward taken o ∨
        ∃ e ds, (.kBackend, e) ∈ trace taken ∧ outward e = some (.expanded o ds) ∧
          ∀ d ∈ ds, (h.pipe .kForward).Travels (o, d) ∨
            ((poppedFrames .kBackend (trace taken)).filter
              fun frame => frame.origin == o && frame.val.sid == d.sid).length = 1) ∧
      ((poppedFrames .kBackend (trace taken)).filter
        fun frame => frame.origin == o && frame.val.sid == 1).length = 1) ∧
    ∃ taken h o, HubRun (smallConfig 1) smallWakeFd taken h ∧
      o ∈ receivedFrames .kBackend (trace taken) ∧
      ((h.pipe .kBackend).Waits o ∨ PutAside (smallConfig 1) .kBackend taken o ∨
        ∃ e ds, (.kForward, e) ∈ trace taken ∧ outward e = some (.expanded o ds) ∧
          ∀ d ∈ ds, (h.pipe .kBackend).Travels (o, d) ∨
            ((poppedFrames .kForward (trace taken)).filter
              fun frame => frame.origin == o && frame.val.sid == d.sid).length = 1) ∧
      Im.readDestNid o.frame.payload = 1 ∧ PutAside (smallConfig 1) .kBackend taken o := by
  constructor
  · obtain ⟨taken, h, run, sure, seen⟩ := small_run 4 insists publishing
      (fun x => (receivedFrames .kForward x.2).head?.any fun o =>
        ((poppedFrames .kBackend x.2).filter
          fun frame => frame.origin == o && frame.val.sid == 1).length == 1)
      (by decide +kernel)
    obtain ⟨o, first, once⟩ := (Option.any_eq_true _ _).mp seen
    have received := List.mem_of_head? first
    exact ⟨taken, h, o, run, received, no_frame_is_lost_unless_a_push_gives_up run
      (sure.mono fun _ => insists_sure) .kForward o received, beq_iff_eq.mp once⟩
  · obtain ⟨taken, h, run, sure, seen⟩ := small_run 1 insists crowdingBack
      (fun x => (receivedFrames .kBackend x.2).getLast?.any fun o =>
        Im.readDestNid o.frame.payload == 1 && x.2.any (popsBare o))
      (by decide +kernel)
    obtain ⟨o, last, named⟩ := (Option.any_eq_true _ _).mp seen
    have received := List.mem_of_getLast? last
    simp only [Bool.and_eq_true, beq_iff_eq] at named
    obtain ⟨nid, bare⟩ := named
    have ignored : Ignored .kBackend (trace taken) o := by
      obtain ⟨entry, member, shown⟩ := List.any_eq_true.mp bare
      unfold popsBare at shown
      split at shown
      · simp only [Bool.and_eq_true, beq_iff_eq, List.isEmpty_iff] at shown
        refine ⟨rfl, _, _, member, shown.1, ?_⟩
        rw [shown.2, Im.readDestNid_nil]
      · cases shown
    exact ⟨taken, h, o, run, received, no_frame_is_lost_unless_a_push_gives_up run
      (sure.mono fun _ => insists_sure) .kBackend o received, nid, ignored.putAside run⟩

end Steps

end HiImCore.Hub
