import HiImCore.Hub.Delivery

/-! What a session may do and learn before it has been authenticated. -/

namespace HiImCore.Hub

open Pipeline Replay Transition Wire

variable {cfg : HubConfig} {wakeFd : Plane → Nat → Int}
  {taken : List (Taken HubServer Action Entry)} {h : HubServer} {p : Plane}

section Steps

theorem reactor_step_of {e : Event} (run : HubRun cfg wakeFd taken h)
    (seen : (p, e) ∈ trace taken) (role : e.role = some .reactor) :
    ∃ front pre i events t, HubRun cfg wakeFd front pre ∧ e ∈ events ∧
      ReactorEffect cfg i (pre.plane p) events t ∧
      (∀ x ∈ trace front, x ∈ trace taken) ∧ ∀ x ∈ events, (p, x) ∈ trace taken := by
  obtain ⟨before, later, split⟩ := List.append_of_mem seen
  obtain ⟨front, x, back, first, last, rfl, inside, _⟩ := trace_split split
  obtain ⟨earlier, post, step⟩ := run.at
  have member : (p, e) ∈ x.events := by
    rw [inside]
    simp
  obtain ⟨i, input, pl, events, _, _, same, here, effect⟩ :=
    (hubRun_effect earlier step).of_reactor member role
  refine ⟨front, x.pre, i, events, pl.traffic, earlier, here, effect, ?_, ?_⟩
  · intro y old
    rw [trace_append]
    exact List.mem_append_left _ old
  · intro y new
    have recorded : (p, y) ∈ x.events := by
      rw [same]
      exact mem_entries.mpr ⟨rfl, new⟩
    simp [trace, recorded]

theorem bound_accepted (run : HubRun cfg wakeFd taken h) {i sid : Nat} {gid nid : UInt32}
    (bound : (p, .bound i sid gid nid) ∈ trace taken) :
    ∃ frame auth, (p, .system sid frame) ∈ trace taken ∧ Accepted cfg frame auth := by
  obtain ⟨front, pre, j, events, t, earlier, here, effect, _, recorded⟩ :=
    reactor_step_of run bound rfl
  cases effect with
  | @system k session frame left answer pops flag answered =>
      have same : session.sid = k :=
        (hubRun_follows earlier p).2.sid j k session.key (present_of_found pops.found)
      cases answered with
      | @authenticated auth accepted =>
          simp only [List.mem_cons, Event.bound.injEq, List.not_mem_nil, or_false, reduceCtorEq,
            false_or] at here
          refine ⟨frame, auth, ?_, accepted⟩
          rw [here.2.1, show ({ session with fb := left } : Session).sid = k from same]
          exact recorded _ List.mem_cons_self
      | _ => simp at here
  | sent front found =>
      split at here <;> simp at here
  | _ => simp at here

end Steps

section Bound

def EverBound (p : Plane) (sid : Nat) (history : List Entry) : Prop :=
  ∃ i gid nid, (p, Event.bound i sid gid nid) ∈ history

theorem EverBound.mono {sid : Nat} {first second : List Entry} (bound : EverBound p sid first)
    (within : ∀ x ∈ first, x ∈ second) : EverBound p sid second := by
  obtain ⟨i, gid, nid, member⟩ := bound
  exact ⟨i, gid, nid, within _ member⟩

theorem session_bound (run : HubRun cfg wakeFd taken h) {i k : Nat} {session : Session}
    (found : ((h.plane p).reactor i).sessions k = some session) :
    (session.authed = true → EverBound p k (trace taken)) ∧
      (session.authed = false → session.nid = 0) := by
  obtain ⟨legal, agrees⟩ := hubRun_follows run p
  obtain ⟨bound, zero⟩ := authed_bound legal (agrees.live i k session.key (present_of_found found))
  refine ⟨fun authed => ?_, zero⟩
  obtain ⟨gid, member⟩ := bound authed
  exact ⟨i, gid, session.nid, mem_onPlane.mp member⟩

theorem received_bound (run : HubRun cfg wakeFd taken h) {i : Nat} {o : Origin}
    (received : (p, .received i o) ∈ trace taken) : EverBound p o.sid (trace taken) := by
  obtain ⟨before, later, split⟩ := List.append_of_mem received
  obtain ⟨legal, id, live, authed, _⟩ := allowed_at run split
  obtain ⟨gid, member⟩ := (authed_bound legal live).1 authed
  refine ⟨i, gid, id.nid, ?_⟩
  rw [split]
  exact List.mem_append_left _ (mem_onPlane.mp member)

theorem lookup_bound (run : HubRun cfg wakeFd taken h) {e : Event} {o : Origin} {ds : List Dest}
    {d : Dest} (seen : (p, e) ∈ trace taken) (looks : outward e = some (.expanded o ds))
    (named : d ∈ ds) : EverBound p d.sid (trace taken) := by
  obtain ⟨before, later, split⟩ := List.append_of_mem seen
  obtain ⟨legal, allowed⟩ := allowed_at run split
  have early : EverBound p d.sid before := by
    cases e with
    | expanded origin cmd subs =>
        cases looks
        obtain ⟨sub, inside, rfl⟩ := List.mem_map.mp named
        rw [show subs = _ from allowed] at inside
        obtain ⟨i, id, live, authed, _⟩ := subscriber_live legal inside
        obtain ⟨gid, member⟩ := (authed_bound legal live).1 authed
        exact ⟨i, gid, id.nid, mem_onPlane.mp member⟩
    | resolved origin nid route =>
        cases looks
        obtain ⟨there, inside, rfl⟩ := List.mem_map.mp named
        rw [Option.mem_toList] at inside
        rw [show route = some there from inside] at allowed
        obtain ⟨e, member, i, gid, rfl, _⟩ := since_mem (route_since legal allowed.symm)
        exact ⟨i, gid, nid, mem_onPlane.mp member⟩
    | _ => cases looks
  refine early.mono fun x member => ?_
  rw [split]
  exact List.mem_append_left _ member

end Bound

section Queues

variable {q : Plane}

theorem message_bound (run : HubRun cfg wakeFd taken h) {w : Nat} {msg : Tagged InboundMessage}
    (queued : msg ∈ (h.plane p).recvQueue w) : EverBound p msg.val.sid (trace taken) := by
  have flow := hubRun_flow run p
  obtain ⟨_, admitted⟩ := flow.located.inbox w msg.origin (List.mem_map_of_mem queued)
  obtain ⟨i, arrived⟩ := flow.backs.admitted admitted
  rw [((hubRun_genuine run p).queue w msg queued).1]
  exact received_bound run (received_of_arrived arrived)

theorem recvPushed_bound (run : HubRun cfg wakeFd taken h) {w : Nat}
    {msg : Tagged InboundMessage} (pushed : (p, .recvPushed w msg) ∈ trace taken) :
    EverBound p msg.val.sid (trace taken) := by
  have admitted : .admitted w msg.origin ∈ signals p (trace taken) :=
    mem_signals.mpr (Or.inl ⟨_, pushed, rfl⟩)
  obtain ⟨i, arrived⟩ := (hubRun_flow run p).backs.admitted admitted
  obtain ⟨front, pre, j, events, t, earlier, here, effect, _⟩ := reactor_step_of run pushed rfl
  have genuine : Genuine msg := by
    cases effect with
    | @pushed _ attempt _ held index room =>
        obtain ⟨rfl, rfl⟩ := Event.recvPushed.inj (List.mem_singleton.mp here)
        refine (hubRun_genuine earlier p).hand j msg attempt ?_
        rw [held]
        exact List.mem_singleton.mpr rfl
    | system pops flag answered => cases answered <;> simp at here
    | sent front found => split at here <;> simp at here
    | _ => simp at here
  rw [genuine.1]
  exact received_bound run (received_of_arrived arrived)

theorem destination_bound (run : HubRun cfg wakeFd taken h) {o : Origin} {ds : List Dest}
    {d : Dest} (expanded : .expanded o ds ∈ signals q (trace taken)) (named : d ∈ ds) :
    EverBound q.peer d.sid (trace taken) := by
  obtain ⟨e, seen, looks⟩ := lookup_of_expanded expanded
  exact lookup_bound run seen looks named

theorem posted_bound (run : HubRun cfg wakeFd taken h) {i : Nat} {o : Origin} {d : Dest}
    (posted : .posted i o d ∈ signals q (trace taken)) :
    EverBound q.peer d.sid (trace taken) := by
  obtain ⟨_, ds, expanded, named⟩ := (hubRun_flow run q).backs.posted posted
  exact destination_bound run expanded named

theorem spooled_bound (run : HubRun cfg wakeFd taken h) {o : Origin} {d : Dest}
    (spooled : .spooled o d ∈ signals q (trace taken)) :
    EverBound q.peer d.sid (trace taken) := by
  obtain ⟨ds, expanded, named⟩ := (hubRun_flow run q).backs.spooled spooled
  exact destination_bound run expanded named

theorem sendQueue_bound (run : HubRun cfg wakeFd taken h) {i : Nat} {frame : Tagged OutboundFrame}
    (queued : frame ∈ (h.plane q.peer).sendQueue i) :
    EverBound q.peer frame.val.sid (trace taken) :=
  posted_bound run ((hubRun_flow run q).located.outbox i (frameLabel frame)
    (List.mem_map_of_mem queued))

theorem distQueue_bound (run : HubRun cfg wakeFd taken h) {frame : Tagged OutboundFrame}
    (queued : frame ∈ (h.plane q.peer).distQueue) :
    EverBound q.peer frame.val.sid (trace taken) :=
  spooled_bound run ((hubRun_flow run q).located.spool (frameLabel frame)
    (List.mem_map_of_mem queued))

theorem Answer.appended {i j k sid : Nat} {session : Session} {frame : FrameView}
    {answer : List Event} {data : Bytes} (answered : Answer cfg i k session frame answer)
    (seen : .appended j sid data ∈ answer) :
    sid = k ∧ (data = ackFrame .kKpaliveAck session.nid ∨ session.authed = true ∨
      ∃ gid nid, .bound i session.sid gid nid ∈ answer) := by
  cases answered with
  | nothing | closed => simp at seen
  | @authenticated auth accepted =>
      simp only [List.mem_cons, Event.appended.injEq, List.not_mem_nil, or_false, reduceCtorEq,
        false_or] at seen
      exact ⟨seen.2.1, Or.inr (Or.inr ⟨_, _, List.mem_cons_self⟩)⟩
  | subscribed authed | unsubscribed authed =>
      simp only [List.mem_cons, Event.appended.injEq, List.not_mem_nil, or_false, reduceCtorEq,
        false_or] at seen
      exact ⟨seen.2.1, Or.inr (Or.inl authed)⟩
  | alive =>
      obtain ⟨_, rfl, rfl⟩ := Event.appended.inj (List.mem_singleton.mp seen)
      exact ⟨rfl, Or.inl rfl⟩

theorem appended_unbound (run : HubRun cfg wakeFd taken h) {i sid : Nat} {data : Bytes}
    (never : ¬ EverBound q.peer sid (trace taken))
    (appended : (q.peer, .appended i sid data) ∈ trace taken) :
    data = ackFrame .kKpaliveAck 0 := by
  obtain ⟨front, pre, j, events, t, earlier, here, effect, old, recorded⟩ :=
    reactor_step_of run appended rfl
  cases effect with
  | @system k session frame left answer pops flag answered =>
      obtain ⟨bound, zero⟩ := session_bound earlier pops.found
      have inAnswer : .appended i sid data ∈ answer := by simpa using here
      obtain ⟨rfl, alive | authed | ⟨gid, nid, now⟩⟩ := answered.appended inAnswer
      · have unauthed : session.authed = false := by
          by_contra authed
          exact never ((bound (by simpa using authed)).mono old)
        rw [alive, show ({ session with fb := left } : Session).nid = 0 from zero unauthed]
      · exact absurd ((bound authed).mono old) never
      · have same : session.sid = sid :=
          (hubRun_follows earlier q.peer).2.sid j sid session.key (present_of_found pops.found)
        rw [show ({ session with fb := left } : Session).sid = sid from same] at now
        exact absurd ⟨j, gid, nid, recorded _ (List.mem_cons_of_mem _ now)⟩ never
  | @sent item left session front found =>
      split at here
      · simp at here
      · simp only [List.mem_cons, Event.appended.injEq, List.not_mem_nil, or_false, reduceCtorEq,
          false_or] at here
        obtain ⟨_, rfl, _⟩ := here
        refine absurd ((sendQueue_bound earlier (i := j) ?_).mono old) never
        rw [front]
        exact List.mem_cons_self
  | _ => simp at here

end Queues

section Results

theorem appendedBytes_replicate {sid : Nat} {data : Bytes} (history : List Event)
    (same : ∀ i bytes, .appended i sid bytes ∈ history → bytes = data) :
    ∃ n, appendedBytes sid history = (List.replicate n data).flatten := by
  induction history with
  | nil => exact ⟨0, rfl⟩
  | cons e later ih =>
      obtain ⟨n, rest⟩ := ih fun i bytes member => same i bytes (List.mem_cons_of_mem e member)
      cases e with
      | appended i k bytes =>
          by_cases mine : k = sid
          · subst mine
            obtain rfl := same i bytes List.mem_cons_self
            exact ⟨n + 1, by simpa [appendedBytes, List.replicate_succ] using rest⟩
          · exact ⟨n, by simpa [appendedBytes, mine] using rest⟩
      | _ => exact ⟨n, rest⟩

/-- A session none of whose frames was an accepted `AUTH_REQ` is not in the router, has no
message and no frame in any queue, now or before, and all bytes ever appended for it are
keep-alive acknowledgements with nid zero. -/
theorem unauthenticated_session_has_no_effect (run : HubRun cfg wakeFd taken h) (p : Plane)
    (sid : Nat)
    (never : ∀ frame auth, (p, .system sid frame) ∈ trace taken → ¬ Accepted cfg frame auth) :
    ((∀ cmd vec, (h.plane p).router.subTable cmd = some vec → ∀ sub ∈ vec, sub.sid ≠ sid) ∧
        ∀ nid route, (h.plane p).router.nidMap nid = some route → route.sid ≠ sid) ∧
      ((∀ w msg, (p, .recvPushed w msg) ∈ trace taken → msg.val.sid ≠ sid) ∧
        ∀ w, ∀ msg ∈ (h.plane p).recvQueue w, msg.val.sid ≠ sid) ∧
      ((∀ frame, (p, .distPushed frame) ∈ trace taken → frame.val.sid ≠ sid) ∧
        ∀ frame ∈ (h.plane p).distQueue, frame.val.sid ≠ sid) ∧
      ((∀ i frame, (p, .sendPushed i frame) ∈ trace taken → frame.val.sid ≠ sid) ∧
        ∀ i, ∀ frame ∈ (h.plane p).sendQueue i, frame.val.sid ≠ sid) ∧
      (∀ i data, (p, .appended i sid data) ∈ trace taken → data = ackFrame .kKpaliveAck 0) ∧
      ∀ i session, ((h.plane p).reactor i).sessions sid = some session →
        ∃ n, writtenBytes sid (onPlane p (trace taken)) ++ session.outbuf =
          (List.replicate n (ackFrame .kKpaliveAck 0)).flatten := by
  obtain ⟨q, rfl⟩ : ∃ q : Plane, p = q.peer := ⟨p.peer, (Plane.peer_peer p).symm⟩
  have unbound : ¬ EverBound q.peer sid (trace taken) := by
    rintro ⟨i, gid, nid, bound⟩
    obtain ⟨frame, auth, seen, accepted⟩ := bound_accepted run bound
    exact never frame auth seen accepted
  have apart : ∀ {k : Nat}, EverBound q.peer k (trace taken) → k ≠ sid := by
    rintro k bound rfl
    exact unbound bound
  obtain ⟨legal, agrees⟩ := hubRun_follows run q.peer
  have router : (after (onPlane q.peer (trace taken))).router = (h.plane q.peer).router := agrees.router
  have bytes : ∀ i data, (q.peer, .appended i sid data) ∈ trace taken →
      data = ackFrame .kKpaliveAck 0 := fun i data appended => appended_unbound run unbound appended
  refine ⟨⟨?_, ?_⟩, ⟨?_, ?_⟩, ⟨?_, ?_⟩, ⟨?_, ?_⟩, bytes, ?_⟩
  · intro cmd vec found sub member
    rw [← router] at found
    obtain ⟨i, id, live, authed, _⟩ :=
      subscriber_live legal (Router.mem_findSubscribers.mpr ⟨vec, found, member⟩)
    obtain ⟨gid, bound⟩ := (authed_bound legal live).1 authed
    exact apart ⟨i, gid, id.nid, mem_onPlane.mp bound⟩
  · intro nid route found
    rw [← router] at found
    obtain ⟨e, member, i, gid, rfl, _⟩ := since_mem (route_since legal found)
    exact apart ⟨i, gid, nid, mem_onPlane.mp member⟩
  · exact fun w msg pushed => apart (recvPushed_bound run pushed)
  · exact fun w msg queued => apart (message_bound run queued)
  · exact fun frame pushed => apart (spooled_bound run (mem_of_outward pushed rfl))
  · exact fun frame queued => apart (distQueue_bound run queued)
  · exact fun i frame pushed => apart (posted_bound run (mem_of_outward pushed rfl))
  · exact fun i frame queued => apart (sendQueue_bound run queued)
  · intro i session found
    obtain ⟨n, whole⟩ := appendedBytes_replicate (onPlane q.peer (trace taken))
      fun i data member => bytes i data (mem_onPlane.mp member)
    have stream := stream_kept legal sid
    rw [agrees.live i sid session.key (present_of_found found)] at stream
    exact ⟨n, stream.symm.trans whole⟩

def requestsNoAuth (history : List Entry) : Bool :=
  history.all fun entry =>
    match entry.2 with
    | .system _ frame =>
        SysCmd.ofCode (headerFieldHost frame.header WireHeader.type) != some .kAuthReq
    | _ => true

theorem unauthenticated_session_has_no_effect_alive :
    ∃ taken h, HubRun (smallConfig 4) smallWakeFd taken h ∧
      (Plane.kForward, Event.appended 0 1 (ackFrame .kKpaliveAck 0)) ∈ trace taken ∧
      ∀ nid route, (h.plane .kForward).router.nidMap nid = some route → route.sid ≠ 1 := by
  obtain ⟨taken, h, run, _, seen⟩ := small_run 4 (fun _ => true)
    (connecting .kForward 0 smallWakeFd 5 ++
      requesting .kForward 0 5 (encodeFrame SysCmd.kKpaliveReq.code 0 kFlagSys []))
    (fun x => requestsNoAuth x.2 &&
      decide ((Plane.kForward, Event.appended 0 1 (ackFrame .kKpaliveAck 0)) ∈ x.2))
    (by decide +kernel)
  obtain ⟨silent, answered⟩ := Bool.and_eq_true_iff.mp seen
  have quiet := unauthenticated_session_has_no_effect run .kForward 1 (by
    intro frame auth member accepted
    have other := List.all_eq_true.mp silent _ member
    simp [accepted.type] at other)
  exact ⟨taken, h, run, of_decide_eq_true answered, quiet.1.2⟩

end Results

end HiImCore.Hub
