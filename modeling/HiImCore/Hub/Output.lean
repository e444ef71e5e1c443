import HiImCore.Hub.Admission
import HiImCore.Hub.Content
import HiImCore.Wire.Reassembly

/-! What a client can read from its connection: complete frames only, each an acknowledgement
or a copy of a business frame of the other plane. -/

namespace HiImCore.Hub

open Pipeline Replay Transition Wire

section Frames

structure Traffic.Bears (S : Tagged OutboundFrame → Prop) (t : Traffic) : Prop where
  worker : ∀ w msg out attempt rest, t.worker w = .push msg out attempt rest → S out
  dist : ∀ f ∈ t.distQueue, S f
  distributor : ∀ f attempt, t.distributor = .route f attempt → S f
  send : ∀ i, ∀ f ∈ t.sendQueue i, S f

structure Lasting (M : Tagged InboundMessage → Prop) (S : Tagged OutboundFrame → Prop) : Prop where
  built : ∀ msg sid idx nid, M msg →
    S ⟨⟨sid, idx, encodeFrame msg.val.type nid kFlagExp msg.val.payload⟩, msg.origin⟩
  moved : ∀ f, S f → S (movedFrom f)

variable {M : Tagged InboundMessage → Prop} {S : Tagged OutboundFrame → Prop} {cfg : HubConfig}
  {i w : Nat} {pl own peer : PlaneState} {events : List Event} {t : Traffic}

theorem ReactorEffect.bears (effect : ReactorEffect cfg i pl events t) (bears : pl.traffic.Bears S) :
    t.Bears S := by
  have popped : ∀ {item left}, pl.sendQueue i = item :: left →
      ∀ j, ∀ f ∈ Function.update pl.sendQueue i left j, S f := fun front j f member =>
    bears.send j f (mem_after_front front member)
  cases effect with
  | dropped front absent => exact { bears with send := popped front }
  | sent front found => exact { bears with send := popped front }
  | _ => exact ⟨bears.worker, bears.dist, bears.distributor, bears.send⟩

theorem DistributorEffect.bears (effect : DistributorEffect cfg pl events t) (lasting : Lasting M S)
    (bears : pl.traffic.Bears S) : t.Bears S := by
  cases effect with
  | idle was still =>
      refine { bears with distributor := ?_ }
      rcases still with rfl | rfl <;> exact nofun
  | @took frame left was front =>
      have inside : ∀ f ∈ frame :: left, S f := by
        rw [← front]
        exact bears.dist
      refine { bears with dist := ?_, distributor := ?_ }
      · exact fun f member => inside f (List.mem_cons_of_mem frame member)
      · intro f attempt busy
        cases busy
        exact inside _ List.mem_cons_self
  | outOfRange => exact bears
  | posted was index room =>
      refine { bears with distributor := nofun, send := ?_ }
      intro k f member
      rcases mem_after_put member with old | ⟨rfl, last⟩
      · exact bears.send k f old
      · obtain rfl := List.mem_singleton.mp last
        exact bears.distributor f _ was
  | retried was =>
      refine { bears with distributor := ?_ }
      intro f attempt busy
      cases busy
      exact lasting.moved _ (bears.distributor _ _ was)
  | gaveUp was => exact { bears with distributor := nofun }

theorem publishNext_bears {msg other : Tagged InboundMessage} {out : Tagged OutboundFrame}
    {attempt : Nat} {subs : List Subscriber} {rest : Option (List Subscriber)}
    (lasting : Lasting M S) (good : M msg)
    (busy : (publishNext msg subs).1 = .push other out attempt rest) : S out := by
  cases subs with
  | nil => cases busy
  | cons sub later =>
      cases busy
      exact lasting.built msg sub.sid sub.reactorIdx sub.nid good

theorem WorkerEffect.bears {p : Plane} {s : WorkerStep} (effect : WorkerEffect cfg p w own peer s)
    (lasting : Lasting M S) (messages : ∀ msg, (own.worker w).message = some msg → M msg)
    (bears : own.traffic.Bears S) {msg : Tagged InboundMessage} {out : Tagged OutboundFrame}
    {attempt : Nat} {rest : Option (List Subscriber)}
    (busy : s.worker = .push msg out attempt rest) : S out := by
  cases effect with
  | idle was still => rcases still with rfl | rfl <;> cases busy
  | took | ignored | unrouted | gaveUp => cases busy
  | published was plane results =>
      exact publishNext_bears lasting (messages _ (congrArg Worker.message was)) busy
  | routed was plane dest found =>
      cases busy
      exact lasting.built _ _ _ _ (messages _ (congrArg Worker.message was))
  | pushed was room results =>
      exact publishNext_bears lasting (messages _ (congrArg Worker.message was)) busy
  | retried was =>
      cases busy
      exact lasting.moved _ (bears.worker w _ _ _ _ was)

theorem WorkerEffect.spools {p : Plane} {s : WorkerStep} (effect : WorkerEffect cfg p w own peer s)
    (bears : own.traffic.Bears S) (dist : ∀ f ∈ peer.distQueue, S f) : ∀ f ∈ s.distQueue, S f := by
  cases effect with
  | pushed was room results =>
      intro f member
      rcases List.mem_append.mp member with old | last
      · exact dist f old
      · obtain rfl := List.mem_singleton.mp last
        exact bears.worker w _ _ _ _ was
  | _ => exact dist

variable {h post : HubServer} {act : Action} {entries : List Entry}

theorem HubEffect.bears (effect : HubEffect cfg h act post entries) (lasting : Lasting M S)
    (messages : ∀ p w msg, ((h.plane p).worker w).message = some msg → M msg)
    (bears : ∀ p, (h.plane p).traffic.Bears S) : ∀ p, (post.plane p).traffic.Bears S := by
  cases effect with
  | listening same silent =>
      intro q
      rw [same q]
      exact bears q
  | @reactor p i input pl events effect =>
      exact HubServer.forall_setPlane (P := fun _ pl => pl.traffic.Bears S)
        (effect.bears (bears p)) bears
  | @distributor p pl events effect =>
      exact HubServer.forall_setPlane (P := fun _ pl => pl.traffic.Bears S)
        (effect.bears lasting (bears p)) bears
  | @worker p w s effect =>
      refine HubServer.forall_setPlanes (P := fun _ pl => pl.traffic.Bears S)
        { bears p with worker := ?_ } { bears p.peer with dist := ?_ }
      · intro v msg out attempt rest busy
        simp only [PlaneState.traffic, Function.update_apply] at busy
        split at busy
        · exact effect.bears lasting (messages p w) (bears p) busy
        · exact (bears p).worker v msg out attempt rest busy
      · exact effect.spools (bears p) (bears p.peer).dist

theorem hubRun_bears {wakeFd : Plane → Nat → Int} {taken : List (Taken HubServer Action Entry)}
    (run : HubRun cfg wakeFd taken h) (lasting : Lasting Genuine S) :
    ∀ p, (h.plane p).traffic.Bears S := by
  refine run.invariant (fun _ h => ∀ p, (h.plane p).traffic.Bears S) ?_ ?_
  · intro p
    exact ⟨nofun, nofun, nofun, fun i f member => by cases member⟩
  · intro past pre act post events before bears step
    exact (hubRun_effect before step).bears lasting
      (fun p w msg => (hubRun_genuine before p).worker w msg) bears

end Frames

section Log

def IsAck (f : Frame) : Prop :=
  f.flag = kFlagSys ∧ f.payload = [] ∧
    ∃ cmd ∈ [SysCmd.kAuthAck, .kSubAck, .kUnsubAck, .kKpaliveAck], f.type = cmd.code

def CopyOf (o : Origin) (f : Frame) : Prop :=
  f.flag = kFlagExp ∧ f.type = o.type ∧ (f.payload = o.frame.payload ∨ f.payload = [])

def Copied (frame : Tagged OutboundFrame) : Prop :=
  frame.val.bytes = [] ∨ ∃ nid payload,
    frame.val.bytes = encodeFrame frame.origin.type nid kFlagExp payload ∧
      (payload = frame.origin.frame.payload ∨ payload = [])

theorem copied_lasting : Lasting Genuine Copied where
  built := by
    rintro msg sid idx nid ⟨_, type, payload⟩
    refine .inr ⟨nid, msg.val.payload, ?_, payload⟩
    rw [Origin.type, ← type]
  moved := fun _ _ => .inl rfl

def deliveredTo (k : Nat) : List Event → List Origin :=
  List.filterMap fun
    | .sendPopped _ frame true =>
        if frame.val.sid = k ∧ frame.val.bytes ≠ [] then some frame.origin else none
    | _ => none

/-- The frames appended to session `k` of the peer of plane `q`, each with the business frame of
plane `q` it copies, if it is not an acknowledgement. -/
structure OutputLog (q : Plane) (k : Nat) (history : List Entry)
    (log : List (Frame × Option Origin)) : Prop where
  bytes : appendedBytes k (onPlane q.peer history) = stream (log.map Prod.fst)
  acks : ∀ f, (f, none) ∈ log → IsAck f ∧ ∃ i, (q.peer, .appended i k f.encode) ∈ history
  copies : ∀ f o, (f, some o) ∈ log → CopyOf o f ∧ ∃ j, (q, .received j o) ∈ history
  origins : log.filterMap Prod.snd = deliveredTo k (onPlane q.peer history)

variable {cfg : HubConfig} {wakeFd : Plane → Nat → Int}
  {taken : List (Taken HubServer Action Entry)} {h : HubServer} {q : Plane}

theorem received_short (run : HubRun cfg wakeFd taken h) {i : Nat} {o : Origin}
    (received : (q, .received i o) ∈ trace taken) : o.frame.payload.length < 2 ^ 32 := by
  obtain ⟨front, pre, j, events, t, _, here, effect, _⟩ := reactor_step_of run received rfl
  cases effect with
  | received pops flag authed free =>
      obtain ⟨_, rfl⟩ := Event.received.inj (List.mem_singleton.mp here)
      obtain ⟨_, length, _⟩ := FrameBuffer.tryPopFrame_some pops.popped
      exact length ▸ UInt32.toNat_lt _
  | system pops flag answered => cases answered <;> simp at here
  | sent front found => split at here <;> simp at here
  | _ => simp at here

theorem sendQueue_received (run : HubRun cfg wakeFd taken h) {i : Nat} {frame : Tagged OutboundFrame}
    (queued : frame ∈ (h.plane q.peer).sendQueue i) : ∃ j, (q, .received j frame.origin) ∈ trace taken := by
  have flow := hubRun_flow run q
  have posted := flow.located.outbox i (frameLabel frame) (List.mem_map_of_mem queued)
  obtain ⟨_, ds, expanded, _⟩ := flow.backs.posted posted
  obtain ⟨j, arrived⟩ := flow.backs.expanded expanded
  exact ⟨j, received_of_arrived arrived⟩

structure Outputs (q : Plane) (k : Nat) (history : List Entry) (events : List Event)
    (more : List (Frame × Option Origin)) : Prop where
  bytes : appendedBytes k events = stream (more.map Prod.fst)
  acks : ∀ f, (f, none) ∈ more → IsAck f ∧ ∃ i, .appended i k f.encode ∈ events
  copies : ∀ f o, (f, some o) ∈ more → CopyOf o f ∧ ∃ j, (q, .received j o) ∈ history
  origins : more.filterMap Prod.snd = deliveredTo k events

theorem outputs_none {k : Nat} {history : List Entry} {events : List Event}
    (nothing : appendedBytes k events = []) (silent : deliveredTo k events = []) :
    Outputs q k history events [] :=
  ⟨nothing, nofun, nofun, silent.symm⟩

theorem Answer.outputs {i sid k : Nat} {session : Session} {frame : FrameView}
    {answer : List Event} {history : List Entry} (answered : Answer cfg i sid session frame answer) :
    ∃ more, Outputs q k history (.system sid frame :: answer) more := by
  have acked : ∀ (cmd : SysCmd) {nid : UInt32} (before : List Event),
      cmd ∈ [SysCmd.kAuthAck, .kSubAck, .kUnsubAck, .kKpaliveAck] → appendedBytes k before = [] →
      deliveredTo k before = [] →
      ∃ more, Outputs q k history (before ++ [.appended i sid (ackFrame cmd nid)]) more := by
    intro cmd nid before known nothing silent
    have appended : appendedBytes k (before ++ [.appended i sid (ackFrame cmd nid)]) =
        if sid = k then ackFrame cmd nid else [] := by
      rw [appendedBytes, List.flatMap_append, ← appendedBytes, nothing]
      simp [appendedBytes]
    have delivered : deliveredTo k (before ++ [.appended i sid (ackFrame cmd nid)]) = [] := by
      rw [deliveredTo, List.filterMap_append, ← deliveredTo, silent]
      rfl
    by_cases same : sid = k
    · subst same
      let ack : Frame := ⟨cmd.code, nid, kFlagSys, [], by decide⟩
      refine ⟨[(ack, none)], ?_, ?_, ?_, delivered.symm⟩
      · rw [appended, if_pos rfl]
        exact (List.append_nil _).symm
      · intro f member
        obtain rfl := (Prod.mk.inj (List.mem_singleton.mp member)).1
        exact ⟨⟨rfl, rfl, cmd, known, rfl⟩, i, List.mem_append_right _ (List.mem_singleton.mpr rfl)⟩
      · intro f o member
        cases (Prod.mk.inj (List.mem_singleton.mp member)).2
    · exact ⟨[], outputs_none (by rw [appended, if_neg same]) delivered⟩
  cases answered with
  | nothing => exact ⟨[], outputs_none rfl rfl⟩
  | closed => exact ⟨[], outputs_none rfl rfl⟩
  | authenticated accepted => exact acked .kAuthAck [_, _] (by simp) rfl rfl
  | subscribed authed => exact acked .kSubAck [_, _] (by simp) rfl rfl
  | unsubscribed authed => exact acked .kUnsubAck [_, _] (by simp) rfl rfl
  | alive => exact acked .kKpaliveAck [_] (by simp) rfl rfl

theorem ReactorEffect.outputs {i : Nat} {events : List Event} {t : Traffic}
    (run : HubRun cfg wakeFd taken h) (effect : ReactorEffect cfg i (h.plane q.peer) events t)
    (k : Nat) : ∃ more, Outputs q k (trace taken) events more := by
  cases effect with
  | system pops flag answered => exact answered.outputs
  | @sent item left session front found =>
      have queued : item ∈ (h.plane q.peer).sendQueue i := by
        rw [front]
        exact List.mem_cons_self
      obtain ⟨j, received⟩ := sendQueue_received run queued
      have short := received_short run received
      have copied := (hubRun_bears run copied_lasting q.peer).send i item queued
      by_cases here : item.val.sid = k ∧ item.val.bytes ≠ []
      · obtain ⟨rfl, nonempty⟩ := here
        obtain ⟨nid, payload, encoded, same⟩ := copied.resolve_left nonempty
        have fits : payload.length < 2 ^ 32 := by
          rcases same with rfl | rfl
          · exact short
          · decide
        let f : Frame := ⟨item.origin.type, nid, kFlagExp, payload, fits⟩
        refine ⟨[(f, some item.origin)], ?_, ?_, ?_, ?_⟩
        · have whole : f.encode = item.val.bytes := encoded.symm
          simp [appendedBytes, nonempty, stream, whole]
        · intro f member
          cases (Prod.mk.inj (List.mem_singleton.mp member)).2
        · intro f o member
          obtain ⟨rfl, origin⟩ := Prod.mk.inj (List.mem_singleton.mp member)
          obtain rfl := Option.some.inj origin
          exact ⟨⟨rfl, rfl, same⟩, j, received⟩
        · simp [deliveredTo, nonempty]
      · refine ⟨[], outputs_none ?_ ?_⟩
        · by_cases empty : item.val.bytes = []
          · simp [appendedBytes, empty]
          · have other : item.val.sid ≠ k := fun same => here ⟨same, empty⟩
            simp [appendedBytes, empty, other]
        · by_cases empty : item.val.bytes = []
          · simp [deliveredTo, empty]
          · have other : item.val.sid ≠ k := fun same => here ⟨same, empty⟩
            simp [deliveredTo, empty, other]
  | _ => exact ⟨[], outputs_none rfl rfl⟩

theorem OutputLog.snoc {k : Nat} {log more : List (Frame × Option Origin)} {entries : List Entry}
    (known : OutputLog q k (trace taken) log)
    (outputs : Outputs q k (trace taken) (onPlane q.peer entries) more) :
    OutputLog q k (trace taken ++ entries) (log ++ more) where
  bytes := by
    rw [onPlane_append, appendedBytes, List.flatMap_append, ← appendedBytes, known.bytes,
      outputs.bytes, List.map_append, stream, stream, stream, List.flatMap_append]
  acks := by
    intro f member
    rcases List.mem_append.mp member with old | new
    · obtain ⟨ack, i, appended⟩ := known.acks f old
      exact ⟨ack, i, List.mem_append_left _ appended⟩
    · obtain ⟨ack, i, appended⟩ := outputs.acks f new
      exact ⟨ack, i, List.mem_append_right _ (mem_onPlane.mp appended)⟩
  copies := by
    intro f o member
    have found : CopyOf o f ∧ ∃ j, (q, Event.received j o) ∈ trace taken := by
      rcases List.mem_append.mp member with old | new
      · exact known.copies f o old
      · exact outputs.copies f o new
    obtain ⟨copy, j, received⟩ := found
    exact ⟨copy, j, List.mem_append_left _ received⟩
  origins := by
    rw [onPlane_append, deliveredTo, List.filterMap_append, List.filterMap_append, ← deliveredTo,
      known.origins, outputs.origins]

theorem outputs_silent {k : Nat} {history : List Entry} {events : List Event}
    (silent : ∀ e ∈ events, e.role ≠ some .reactor) : Outputs q k history events [] := by
  refine outputs_none ?_ ?_
  · refine List.flatMap_eq_nil_iff.mpr fun e member => ?_
    cases e with
    | appended => exact absurd rfl (silent _ member)
    | _ => rfl
  · refine List.filterMap_eq_nil_iff.mpr fun e member => ?_
    cases e with
    | sendPopped => exact absurd rfl (silent _ member)
    | _ => rfl

theorem hubRun_output (run : HubRun cfg wakeFd taken h) (q : Plane) (k : Nat) :
    ∃ log, OutputLog q k (trace taken) log := by
  refine run.invariant (fun history _ => ∃ log, OutputLog q k history log) ?_ ?_
  · exact ⟨[], rfl, nofun, nofun, rfl⟩
  · rintro past pre act post entries before ⟨log, known⟩ step
    have effect := hubRun_effect before step
    have outputs : ∃ more, Outputs q k (trace past) (onPlane q.peer entries) more := by
      by_cases silent : ∀ e ∈ onPlane q.peer entries, e.role ≠ some .reactor
      · exact ⟨[], outputs_silent silent⟩
      · simp only [not_forall, not_not] at silent
        obtain ⟨e, member, role⟩ := silent
        obtain ⟨i, _, _, events, _, _, rfl, _, moves⟩ :=
          effect.of_reactor (mem_onPlane.mp member) role
        rw [onPlane_map, if_pos rfl]
        exact moves.outputs before k
    obtain ⟨more, outputs⟩ := outputs
    exact ⟨log ++ more, known.snoc outputs⟩

theorem written_initial (run : HubRun cfg wakeFd taken h) (p : Plane) (k : Nat) :
    writtenBytes k (onPlane p (trace taken)) <+: appendedBytes k (onPlane p (trace taken)) := by
  have streams := stream_kept (hubRun_follows run p).1 k
  generalize (after (onPlane p (trace taken))).conn k = conn at streams
  cases conn with
  | live i id => exact ⟨id.out, streams.symm⟩
  | gone => exact streams
  | _ =>
      rw [streams.2]
      exact List.nil_prefix

theorem OutputLog.popped {k : Nat} {log : List (Frame × Option Origin)}
    (known : OutputLog q k (trace taken) log) (run : HubRun cfg wakeFd taken h) {calls : List Call}
    (read : fed calls <+: writtenBytes k (onPlane q.peer (trace taken))) :
    ∃ n, (serve .empty calls).1 = (log.take n).map (fun x => x.1.view) ∧
      fed calls = stream ((log.take n).map Prod.fst) ++ (serve .empty calls).2.buf ∧
      (serve .empty calls).2.buf <+: stream ((log.drop n).map Prod.fst) := by
  obtain ⟨later, whole⟩ := read.trans (written_initial run q.peer k)
  rw [known.bytes] at whole
  have sync : FrameBuffer.empty.buf ++ fed calls ++ later = stream (log.map Prod.fst) ++ [] := by
    rw [List.append_nil]
    exact whole
  obtain ⟨done, todo, split, popped, spent, rest⟩ :=
    serve_sync calls .empty _ [] later nothing_unfinished sync
  have first : (log.take done.length).map Prod.fst = done := by
    rw [List.map_take, split, List.take_left]
  have remaining : (log.drop done.length).map Prod.fst = todo := by
    rw [List.map_drop, split, List.drop_left]
  refine ⟨done.length, ?_, ?_, later, ?_⟩
  · calc (serve .empty calls).1 = done.map Frame.view := popped
      _ = ((log.take done.length).map Prod.fst).map Frame.view := by rw [first]
      _ = (log.take done.length).map (fun x => x.1.view) := List.map_map
  · rw [first]
    exact spent
  · rw [remaining, rest, List.append_nil]

/-- Whatever part of its stream a client has read and however it is cut, it pops complete frames
in the order in which they were appended, and what it has left begins the encodings of the next ones;
each frame is an acknowledgement, or has the type of a business frame that was taken on the other
plane, with its payload or with none. -/
theorem client_pops_only_complete_frames (run : HubRun cfg wakeFd taken h) (q : Plane) (k : Nat)
    (calls : List Call) (read : fed calls <+: writtenBytes k (onPlane q.peer (trace taken))) :
    ∃ log n, OutputLog q k (trace taken) log ∧
      (serve .empty calls).1 = (log.take n).map (fun x => x.1.view) ∧
      fed calls = stream ((log.take n).map Prod.fst) ++ (serve .empty calls).2.buf ∧
      (serve .empty calls).2.buf <+: stream ((log.drop n).map Prod.fst) := by
  obtain ⟨log, known⟩ := hubRun_output run q k
  obtain ⟨n, popped, spent, rest⟩ := known.popped run read
  exact ⟨log, n, known, popped, spent, rest⟩

def subscriberBytes : Bytes :=
  ackFrame .kAuthAck 2 ++ ackFrame .kSubAck 2 ++ encodeFrame 9 2 kFlagExp [1] ++
    encodeFrame 9 2 kFlagExp [2]

def subscriberCalls : List Call :=
  [.append (subscriberBytes.take 30), .tryPopFrame, .append ((subscriberBytes.take 75).drop 30),
    .tryPopFrame, .tryPopFrame]

/-- The subscriber pops the acknowledgements and the first copy, and is left with 14 bytes of the
header of the second one. -/
theorem client_pops_only_complete_frames_published :
    ∃ taken h log, HubRun (smallConfig 4) smallWakeFd taken h ∧
      writtenBytes 1 (onPlane .kBackend (trace taken)) = subscriberBytes ∧
      OutputLog .kForward 1 (trace taken) log ∧
      (serve .empty subscriberCalls).1 = (log.take 3).map (fun x => x.1.view) ∧
      (serve .empty subscriberCalls).2.buf = (encodeFrame 9 2 kFlagExp [2]).take 14 ∧
      (serve .empty subscriberCalls).2.buf <+: stream ((log.drop 3).map Prod.fst) := by
  obtain ⟨taken, h, run, _, seen⟩ := small_run 4 (fun _ => true) publishing
    (fun x => decide (writtenBytes 1 (onPlane .kBackend x.2) = subscriberBytes)) (by decide +kernel)
  have written := of_decide_eq_true seen
  have read : fed subscriberCalls <+: writtenBytes 1 (onPlane .kBackend (trace taken)) := by
    rw [written]
    decide +kernel
  have three : (serve .empty subscriberCalls).1.length = 3 := by decide +kernel
  have left : (serve .empty subscriberCalls).2.buf = (encodeFrame 9 2 kFlagExp [2]).take 14 := by
    decide +kernel
  obtain ⟨log, n, known, popped, _, rest⟩ := client_pops_only_complete_frames run .kForward 1 _ read
  -- A client that had popped the whole log could not have bytes left over.
  have more : n < log.length := by
    by_contra whole
    rw [List.drop_eq_nil_of_le (Nat.le_of_not_lt whole), left] at rest
    have nothing := rest.length_le
    revert nothing
    decide +kernel
  have same : n = 3 := by
    rw [popped, List.length_map, List.length_take] at three
    omega
  subst same
  exact ⟨taken, h, log, run, written, known, popped, left, rest⟩

end Log

end HiImCore.Hub
