import HiImCore.Hub.Delivery

/-! The content of forwarded frames. `PushWithBackoff` moves its value into every attempt,
so a push that succeeds on a retry delivers what the first attempt left behind. -/

namespace HiImCore.Hub

open Pipeline Transition Wire

def Origin.type (o : Origin) : UInt32 := headerFieldHost o.frame.header WireHeader.type

def Exact (msg : Tagged InboundMessage) : Prop :=
  msg.val.type = msg.origin.type ∧ msg.val.payload = msg.origin.frame.payload

/-- The frame is an encoding of the type and the payload of the one it stems from. -/
def Complete (frame : Tagged OutboundFrame) : Prop :=
  ∃ nid, frame.val.bytes = encodeFrame frame.origin.type nid kFlagExp frame.origin.frame.payload

/-- Every retry that the step makes finds its queue full, but for messages of the backend
plane and for messages without a payload. -/
def KeepsContent (cfg : HubConfig) (x : Taken HubServer Action Entry) : Prop :=
  match x.act with
  | .reactor .kForward i _ => ∀ sid msg attempt rest w,
      ((x.pre.plane .kForward).reactor i).stack = .pushInbound sid msg (attempt + 1) :: rest →
      queueIndex cfg.workers (pickWorker cfg msg.val.sid) = some w →
      msg.origin.frame.payload ≠ [] →
      cfg.queueCapacity ≤ ((x.pre.plane .kForward).recvQueue w).length
  | .worker p w => ∀ msg out attempt rest,
      (x.pre.plane p).worker w = .push msg out (attempt + 1) rest →
      cfg.queueCapacity ≤ (x.pre.plane p.peer).distQueue.length
  | .distributor p => ∀ frame attempt j,
      (x.pre.plane p).distributor = .route frame (attempt + 1) →
      queueIndex cfg.reactors frame.val.reactorIdx = some j →
      cfg.queueCapacity ≤ ((x.pre.plane p).sendQueue j).length
  | _ => True

section Messages

variable {cfg : HubConfig} {wakeFd : Plane → Nat → Int}
  {taken : List (Taken HubServer Action Entry)} {h : HubServer}

def HeldExact (msg : Tagged InboundMessage) (attempt : Nat) : Prop :=
  msg.val.type = msg.origin.type ∧
    (if attempt = 0 then msg.val.payload = msg.origin.frame.payload else msg.val.payload = [])

def QueuedExact (p : Plane) (msg : Tagged InboundMessage) : Prop :=
  msg.val.type = msg.origin.type ∧
    (msg.val.payload = msg.origin.frame.payload ∨ p = .kBackend ∧ msg.val.payload = [])

theorem hand_top {pl : PlaneState} {i attempt : Nat} {msg : Tagged InboundMessage}
    (shaped : (pl.reactor i).Shaped) (held : pl.traffic.hand i = [(msg, attempt)]) :
    ∃ sid rest, (pl.reactor i).stack = .pushInbound sid msg attempt :: rest := by
  have whole : (pl.reactor i).stack.filterMap Task.inHand = [(msg, attempt)] := held
  cases shape : (pl.reactor i).stack with
  | nil =>
      rw [shape] at whole
      cases whole
  | cons task rest =>
      have clean : rest.filterMap Task.inHand = [] := by
        refine List.filterMap_eq_nil_iff.mpr fun t member => shaped t ?_
        rw [shape]
        exact member
      rw [shape, List.filterMap_cons, clean] at whole
      cases task <;> simp [Task.inHand] at whole
      obtain ⟨rfl, rfl⟩ := whole
      exact ⟨_, rest, rfl⟩

theorem hubRun_messages (run : HubRun cfg wakeFd taken h)
    (keeps : Within (KeepsContent cfg) taken) :
    ∀ p, (h.plane p).traffic.Carries HeldExact (QueuedExact p) := by
  refine run.invariant_within (KeepsContent cfg)
    (fun _ h => ∀ p, (h.plane p).traffic.Carries HeldExact (QueuedExact p)) ?_ ?_ keeps
  · exact carries_init (H := fun _ => HeldExact) (Q := QueuedExact) wakeFd
  · intro past pre act post events before _ carries keep step
    refine (hubRun_effect before step).carries (H := fun _ => HeldExact) (Q := QueuedExact)
      carries ?_ ?_ ?_
    · exact fun p i session frame => ⟨rfl, rfl⟩
    · rintro p msg attempt ⟨type, _⟩
      exact ⟨type, rfl⟩
    · rintro p i input msg attempt w rfl held index room ⟨type, payload⟩
      refine ⟨type, ?_⟩
      cases attempt with
      | zero => exact Or.inl payload
      | succ attempt =>
          cases p with
          | kBackend => exact Or.inr ⟨rfl, payload⟩
          | kForward =>
              obtain ⟨sid, rest, top⟩ := hand_top (hubRun_shaped before .kForward i) held
              by_cases empty : msg.origin.frame.payload = []
              · exact Or.inl (payload.trans empty.symm)
              · exact absurd room (Nat.not_lt.mpr (keep sid msg attempt rest w top index empty))

end Messages

section Frames

structure Traffic.Frames (D : Tagged OutboundFrame → Prop) (t : Traffic) : Prop where
  worker : ∀ w msg out attempt rest, t.worker w = .push msg out attempt rest →
    Exact msg ∧ (attempt = 0 → Complete out)
  dist : ∀ f ∈ t.distQueue, D f
  distributor : ∀ f, t.distributor = .route f 0 → D f
  send : ∀ i, ∀ f ∈ t.sendQueue i, D f

variable {cfg : HubConfig} {D : Tagged OutboundFrame → Prop} {i w : Nat}
  {pl own peer : PlaneState} {events : List Event} {t : Traffic}

theorem Traffic.Frames.mono {C : Tagged OutboundFrame → Prop} (frames : t.Frames D)
    (implies : ∀ f, D f → C f) : t.Frames C where
  worker := frames.worker
  dist := fun f member => implies f (frames.dist f member)
  distributor := fun f busy => implies f (frames.distributor f busy)
  send := fun i f member => implies f (frames.send i f member)

theorem ReactorEffect.frames (effect : ReactorEffect cfg i pl events t)
    (frames : pl.traffic.Frames D) : t.Frames D := by
  have popped : ∀ {item left}, pl.sendQueue i = item :: left →
      ∀ j, ∀ f ∈ Function.update pl.sendQueue i left j, D f := fun front j f member =>
    frames.send j f (mem_after_front front member)
  cases effect with
  | dropped front absent => exact { frames with send := popped front }
  | sent front found => exact { frames with send := popped front }
  | _ => exact ⟨frames.worker, frames.dist, frames.distributor, frames.send⟩

theorem DistributorEffect.frames (effect : DistributorEffect cfg pl events t)
    (frames : pl.traffic.Frames D)
    (full : ∀ frame attempt j, pl.distributor = .route frame (attempt + 1) →
      queueIndex cfg.reactors frame.val.reactorIdx = some j →
      cfg.queueCapacity ≤ (pl.sendQueue j).length) : t.Frames D := by
  cases effect with
  | idle was still =>
      refine { frames with distributor := ?_ }
      rcases still with rfl | rfl <;> exact nofun
  | @took frame left was front =>
      have inside : ∀ f ∈ frame :: left, D f := by
        rw [← front]
        exact frames.dist
      refine { frames with dist := ?_, distributor := ?_ }
      · exact fun f member => inside f (List.mem_cons_of_mem frame member)
      · intro f busy
        cases busy
        exact inside _ List.mem_cons_self
  | outOfRange => exact frames
  | @posted frame attempt j was index room =>
      have first : attempt = 0 := by
        cases attempt with
        | zero => rfl
        | succ attempt => exact absurd room (Nat.not_lt.mpr (full frame attempt j was index))
      subst first
      refine { frames with distributor := nofun, send := ?_ }
      intro k f member
      rcases mem_after_put member with old | ⟨rfl, last⟩
      · exact frames.send k f old
      · obtain rfl := List.mem_singleton.mp last
        exact frames.distributor f was
  | retried was =>
      refine { frames with distributor := ?_ }
      intro f busy
      cases busy
  | gaveUp was => exact { frames with distributor := nofun }

theorem publishNext_frames {msg other : Tagged InboundMessage} {out : Tagged OutboundFrame}
    {attempt : Nat} {subs : List Subscriber} {rest : Option (List Subscriber)} (intact : Exact msg)
    (busy : (publishNext msg subs).1 = .push other out attempt rest) :
    Exact other ∧ (attempt = 0 → Complete out) := by
  cases subs with
  | nil => cases busy
  | cons sub later =>
      cases busy
      refine ⟨intact, fun _ => ⟨sub.nid, ?_⟩⟩
      rw [← intact.1, ← intact.2]
      rfl

theorem WorkerEffect.builds {p : Plane} {s : WorkerStep} (effect : WorkerEffect cfg p w own peer s)
    (queued : ∀ msg, (own.worker w).message = some msg → QueuedExact p msg)
    (frames : own.traffic.Frames D) {msg : Tagged InboundMessage} {out : Tagged OutboundFrame}
    {attempt : Nat} {rest : Option (List Subscriber)}
    (busy : s.worker = .push msg out attempt rest) :
    Exact msg ∧ (attempt = 0 → Complete out) := by
  cases effect with
  | idle was still => rcases still with rfl | rfl <;> cases busy
  | took | ignored | unrouted | gaveUp => cases busy
  | published was plane results =>
      subst plane
      obtain ⟨type, kept | ⟨wrong, _⟩⟩ := queued _ (congrArg Worker.message was)
      · exact publishNext_frames ⟨type, kept⟩ busy
      · cases wrong
  | routed was plane dest found =>
      cases busy
      obtain ⟨type, kept | ⟨_, lost⟩⟩ := queued _ (congrArg Worker.message was)
      · refine ⟨⟨type, kept⟩, fun _ => ⟨Im.readDestNid msg.val.payload, ?_⟩⟩
        rw [← type, ← kept]
        rfl
      · exact absurd (by rw [lost, Im.readDestNid_nil]) dest
  | pushed was room results => exact publishNext_frames (frames.worker w _ _ _ _ was).1 busy
  | retried was =>
      cases busy
      exact ⟨(frames.worker w _ _ _ _ was).1, nofun⟩

theorem WorkerEffect.pushes {p : Plane} {s : WorkerStep} (effect : WorkerEffect cfg p w own peer s)
    (frames : own.traffic.Frames D)
    (full : ∀ msg out attempt rest, own.worker w = .push msg out (attempt + 1) rest →
      cfg.queueCapacity ≤ peer.distQueue.length) :
    (∀ f ∈ s.distQueue, f ∈ peer.distQueue ∨ .distPushed f ∈ s.peer) ∧
      ∀ f, .distPushed f ∈ s.peer → Complete f := by
  have returned : ∀ {origin : Origin} {tail : List Event} {f}, Returns origin tail →
      .distPushed f ∉ tail := by
    intro origin tail f results member
    obtain ⟨status, same⟩ := results _ member
    cases same
  cases effect with
  | @pushed msg out attempt rest tail was room results =>
      have first : attempt = 0 := by
        cases attempt with
        | zero => rfl
        | succ attempt => exact absurd room (Nat.not_lt.mpr (full msg out attempt rest was))
      subst first
      constructor
      · intro f member
        rcases List.mem_append.mp member with old | last
        · exact Or.inl old
        · obtain rfl := List.mem_singleton.mp last
          exact Or.inr List.mem_cons_self
      · intro f member
        rcases List.mem_cons.mp member with same | rest
        · cases same
          exact (frames.worker w _ _ _ _ was).2 rfl
        · exact absurd rest (returned results)
  | published was plane results =>
      refine ⟨fun f => Or.inl, fun f member => ?_⟩
      rcases List.mem_cons.mp member with same | rest
      · cases same
      · exact absurd rest (returned results)
  | unrouted was plane dest results =>
      refine ⟨fun f => Or.inl, fun f member => ?_⟩
      rcases List.mem_cons.mp member with same | rest
      · cases same
      · exact absurd rest (returned results)
  | gaveUp was results => exact ⟨fun f => Or.inl, fun f member => absurd member (returned results)⟩
  | _ => exact ⟨fun f => Or.inl, by simp⟩

end Frames

section Runs

variable {cfg : HubConfig} {wakeFd : Plane → Nat → Int}
  {taken : List (Taken HubServer Action Entry)} {h post : HubServer} {act : Action}
  {entries : List Entry}

def Pushed (p : Plane) (history : List Entry) (frame : Tagged OutboundFrame) : Prop :=
  Complete frame ∧ (p, .distPushed frame) ∈ history

theorem HubEffect.frames {past : List Entry} (effect : HubEffect cfg h act post entries)
    (keep : KeepsContent cfg ⟨h, act, entries⟩)
    (messages : ∀ p, (h.plane p).traffic.Carries HeldExact (QueuedExact p))
    (frames : ∀ p, (h.plane p).traffic.Frames (Pushed p past)) :
    ∀ p, (post.plane p).traffic.Frames (Pushed p (past ++ entries)) := by
  have grown : ∀ p, (h.plane p).traffic.Frames (Pushed p (past ++ entries)) := fun p =>
    (frames p).mono fun f pushed => ⟨pushed.1, List.mem_append_left _ pushed.2⟩
  -- the events are named before the effect is inverted
  generalize whole : past ++ entries = history at grown ⊢
  cases effect with
  | listening same silent =>
      intro q
      rw [same q]
      exact grown q
  | @reactor p i input pl events effect =>
      exact HubServer.forall_setPlane (P := fun q pl => pl.traffic.Frames (Pushed q history))
        (effect.frames (grown p)) grown
  | @distributor p pl events effect =>
      exact HubServer.forall_setPlane (P := fun q pl => pl.traffic.Frames (Pushed q history))
        (effect.frames (grown p) keep) grown
  | @worker p w s effect =>
      refine HubServer.forall_setPlanes (P := fun q pl => pl.traffic.Frames (Pushed q history))
        { grown p with worker := ?_ } { grown p.peer with dist := ?_ }
      · intro v msg out attempt rest busy
        simp only [PlaneState.traffic, Function.update_apply] at busy
        split at busy
        · exact effect.builds (fun msg => (messages p).worker w msg) (grown p) busy
        · exact (grown p).worker v msg out attempt rest busy
      · intro f member
        obtain ⟨recorded, complete⟩ := effect.pushes (grown p) keep
        rcases recorded f member with old | new
        · exact (grown p.peer).dist f old
        · refine ⟨complete f new, ?_⟩
          rw [← whole]
          exact List.mem_append_right _ (List.mem_append_right _ (mem_entries.mpr ⟨rfl, new⟩))

theorem hubRun_frames (run : HubRun cfg wakeFd taken h) (keeps : Within (KeepsContent cfg) taken) :
    ∀ p, (h.plane p).traffic.Frames (Pushed p (trace taken)) := by
  refine run.invariant_within (KeepsContent cfg)
    (fun history h => ∀ p, (h.plane p).traffic.Frames (Pushed p history)) ?_ ?_ keeps
  · intro p
    exact ⟨nofun, nofun, nofun, fun i f member => by cases member⟩
  · intro past pre act post events before inside frames keep step
    exact (hubRun_effect before step).frames keep (hubRun_messages before inside) frames

end Runs

section Queue

def sendPushes (i : Nat) : List Event → List (Tagged OutboundFrame) :=
  List.filterMap fun | .sendPushed j f => if j = i then some f else none | _ => none

def sendPops (i : Nat) : List Event → List (Tagged OutboundFrame) :=
  List.filterMap fun | .sendPopped j f _ => if j = i then some f else none | _ => none

variable {cfg : HubConfig} {wakeFd : Plane → Nat → Int}
  {taken : List (Taken HubServer Action Entry)} {h post : HubServer} {act : Action}
  {entries : List Entry} {i : Nat} {pl : PlaneState} {events : List Event} {t : Traffic}

theorem sendPushes_silent {role : Role} (recorded : ∀ e ∈ events, e.isBy role = true)
    (other : role ≠ .distributor) : sendPushes i events = [] := by
  refine List.filterMap_eq_nil_iff.mpr fun e member => ?_
  cases e with
  | sendPushed j f => exact absurd (Event.role_of_isBy (recorded _ member) rfl).symm other
  | _ => rfl

theorem sendPops_silent {role : Role} (recorded : ∀ e ∈ events, e.isBy role = true)
    (other : role ≠ .reactor) : sendPops i events = [] := by
  refine List.filterMap_eq_nil_iff.mpr fun e member => ?_
  cases e with
  | sendPopped j f isOpen => exact absurd (Event.role_of_isBy (recorded _ member) rfl).symm other
  | _ => rfl

theorem ReactorEffect.queue {j : Nat} (effect : ReactorEffect cfg j pl events t) (i : Nat) :
    pl.sendQueue i = sendPops i events ++ t.sendQueue i := by
  have popped : ∀ {item left isOpen} {more : List Event}, pl.sendQueue j = item :: left →
      sendPops i more = [] →
      pl.sendQueue i = sendPops i (.sendPopped j item isOpen :: more) ++
        Function.update pl.sendQueue j left i := by
    intro item left isOpen more front silent
    rw [sendPops, List.filterMap_cons, ← sendPops, silent]
    by_cases here : j = i
    · subst here
      simp [front]
    · simp [here, Function.update_of_ne (Ne.symm here)]
  cases effect with
  | dropped front absent => exact popped front rfl
  | sent front found =>
      refine popped front ?_
      split <;> rfl
  | system pops flag answered => cases answered <;> rfl
  | _ => rfl

theorem DistributorEffect.queue (effect : DistributorEffect cfg pl events t) (i : Nat) :
    pl.sendQueue i ++ sendPushes i events = t.sendQueue i := by
  cases effect with
  | @posted frame attempt j was index room =>
      by_cases here : j = i
      · subst here
        simp [sendPushes]
      · simp [sendPushes, here, Function.update_of_ne (Ne.symm here)]
  | _ => exact List.append_nil _

theorem HubEffect.queue (effect : HubEffect cfg h act post entries) (q : Plane) (i : Nat) :
    (h.plane q).sendQueue i ++ sendPushes i (onPlane q entries) =
      sendPops i (onPlane q entries) ++ (post.plane q).sendQueue i := by
  cases effect with
  | @listening _ _ p events same silent =>
      have still : (post.plane q).sendQueue i = (h.plane q).sendQueue i :=
        congrFun (congrArg Traffic.sendQueue (same q)) i
      rw [still, onPlane_map]
      split
      · rw [sendPushes_silent silent (by decide), sendPops_silent silent (by decide)]
        simp
      · simp [sendPushes, sendPops]
  | @reactor p j input pl events effect =>
      rw [onPlane_map]
      split
      · rename_i here
        subst here
        rw [sendPushes_silent effect.by_reactor (by decide), HubServer.setPlane_self,
          List.append_nil]
        exact effect.queue i
      · rename_i other
        rw [HubServer.setPlane_other _ _ (Ne.symm other)]
        simp [sendPushes, sendPops]
  | @distributor p pl events effect =>
      rw [onPlane_map]
      split
      · rename_i here
        subst here
        rw [sendPops_silent effect.by_distributor (by decide), HubServer.setPlane_self,
          List.nil_append]
        exact effect.queue i
      · rename_i other
        rw [HubServer.setPlane_other _ _ (Ne.symm other)]
        simp [sendPushes, sendPops]
  | @worker p w s effect =>
      have recorded : ∀ e ∈ onPlane q
          (s.own.map (Prod.mk p) ++ s.peer.map (Prod.mk p.peer)), e.isBy .worker = true := by
        intro e member
        refine effect.by_worker e (List.mem_append.mpr ?_)
        exact (List.mem_append.mp (mem_onPlane.mp member)).imp (fun own => (mem_entries.mp own).2)
          fun peer => (mem_entries.mp peer).2
      rw [sendPushes_silent recorded (by decide), sendPops_silent recorded (by decide),
        List.append_nil, List.nil_append]
      refine HubServer.forall_setPlanes
        (P := fun q pl => (h.plane q).sendQueue i = pl.sendQueue i) ?_ ?_ q
      · rfl
      · rfl

theorem hubRun_queue (run : HubRun cfg wakeFd taken h) (q : Plane) (i : Nat) :
    sendPushes i (onPlane q (trace taken)) =
      sendPops i (onPlane q (trace taken)) ++ (h.plane q).sendQueue i := by
  refine run.invariant (fun history h => sendPushes i (onPlane q history) =
    sendPops i (onPlane q history) ++ (h.plane q).sendQueue i) rfl ?_
  intro past pre act post events before same step
  have passed := (hubRun_effect before step).queue q i
  rw [onPlane_append, sendPushes, sendPops, List.filterMap_append, List.filterMap_append,
    ← sendPushes, ← sendPops, same, List.append_assoc, passed, List.append_assoc]

end Queue

section Results

variable {cfg : HubConfig} {wakeFd : Plane → Nat → Int}
  {taken : List (Taken HubServer Action Entry)} {h : HubServer} {q : Plane} {i : Nat}
  {frame : Tagged OutboundFrame} {isOpen : Bool} {before later : List Entry}

theorem split_at_head {α : Type} {x e : α} {tail first last : List α}
    (split : x :: tail = first ++ e :: last) (absent : e ∉ tail) :
    first = [] ∧ x = e ∧ tail = last := by
  cases first with
  | nil => exact ⟨rfl, List.cons.inj split⟩
  | cons y more =>
      obtain ⟨_, rfl⟩ := List.cons.inj split
      simp at absent

theorem popped_at (run : HubRun cfg wakeFd taken h)
    (split : trace taken = before ++ (q, .sendPopped i frame isOpen) :: later) :
    ∃ front x back, taken = front ++ x :: back ∧ HubRun cfg wakeFd front x.pre ∧
      before = trace front ∧ frame ∈ (x.pre.plane q).sendQueue i ∧
      (isOpen = true → frame.val.bytes ≠ [] →
        later = (q, .appended i frame.val.sid frame.val.bytes) :: trace back) := by
  obtain ⟨front, x, back, first, last, rfl, inside, rfl, rfl⟩ := trace_split split
  obtain ⟨earlier, post, step⟩ := run.at
  have seen : (q, .sendPopped i frame isOpen) ∈ x.events := by
    rw [inside]
    simp
  obtain ⟨j, input, pl, events, _, _, same, here, effect⟩ :=
    (hubRun_effect earlier step).of_reactor seen rfl
  rw [same] at inside
  generalize pl.traffic = t at effect
  refine ⟨front, x, back, rfl, earlier, ?_⟩
  cases effect with
  | @dropped item left front absent =>
      obtain ⟨rfl, shown, _⟩ := split_at_head inside (by simp)
      cases shown
      refine ⟨List.append_nil _, ?_, nofun⟩
      rw [front]
      exact List.mem_cons_self
  | @sent item left session front found =>
      obtain ⟨rfl, shown, rfl⟩ := split_at_head inside (by split <;> simp)
      cases shown
      refine ⟨List.append_nil _, ?_, ?_⟩
      · rw [front]
        exact List.mem_cons_self
      · intro _ filled
        rw [if_neg (by simpa using filled)]
        rfl
  | system pops flag answered => cases answered <;> simp at here
  | _ => simp at here

theorem popped_pushed (run : HubRun cfg wakeFd taken h) (keeps : Within (KeepsContent cfg) taken)
    (split : trace taken = before ++ (q, .sendPopped i frame isOpen) :: later) :
    Pushed q before frame := by
  obtain ⟨front, x, back, rfl, earlier, rfl, queued, _⟩ := popped_at run split
  exact (hubRun_frames earlier (within_append.mp keeps).1 q).send i frame queued

theorem distPushed_complete (run : HubRun cfg wakeFd taken h)
    (keeps : Within (KeepsContent cfg) taken) (pushed : (q, .distPushed frame) ∈ trace taken) :
    Complete frame := by
  obtain ⟨before, later, split⟩ := List.append_of_mem pushed
  obtain ⟨front, x, back, first, last, rfl, inside, _⟩ := trace_split split
  obtain ⟨earlier, post, step⟩ := run.at
  obtain ⟨inFront, rest⟩ := within_append.mp keeps
  have seen : (q, .distPushed frame) ∈ x.events := by
    rw [inside]
    simp
  obtain ⟨p, w, s, act, effect, place⟩ := (hubRun_effect earlier step).of_worker seen rfl
  have keep := rest x List.mem_cons_self
  rw [KeepsContent, act] at keep
  rcases place with ⟨_, own⟩ | ⟨rfl, peer⟩
  · cases List.filterMap_eq_nil_iff.mp effect.silent.1 _ own
  · exact (effect.pushes (hubRun_frames earlier inFront p) keep).2 frame peer

/-- Where no retry finds room, every frame that is handed to a session is a complete
encoding of the type and the payload of the frame it stems from, and is appended to the
session's stream; and a frame whose pushes to both queues are reported a success is
popped as it was pushed, or still waits. -/
theorem forwarded_content_is_kept (run : HubRun cfg wakeFd taken h)
    (keeps : Within (KeepsContent cfg) taken) (q : Plane) :
    (∀ before i frame later, trace taken = before ++ (q, .sendPopped i frame true) :: later →
      (Complete frame ∧ frame.origin ∈ receivedFrames q.peer before) ∧
        ∃ rest, later = (q, .appended i frame.val.sid frame.val.bytes) :: rest) ∧
      (∀ frame, (q, .distPushed frame) ∈ trace taken → Complete frame) ∧
      ∀ i, (∀ frame, (q, .sendPushed i frame) ∈ trace taken → (q, .distPushed frame) ∈ trace taken) ∧
        sendPushes i (onPlane q (trace taken)) =
          sendPops i (onPlane q (trace taken)) ++ (h.plane q).sendQueue i := by
  refine ⟨?_, fun frame => distPushed_complete run keeps, fun i => ⟨?_, hubRun_queue run q i⟩⟩
  · intro before i frame later split
    have pushed := popped_pushed run keeps split
    obtain ⟨p, rfl⟩ : ∃ p : Plane, q = p.peer := ⟨q.peer, (Plane.peer_peer q).symm⟩
    refine ⟨⟨pushed.1, ?_⟩, ?_⟩
    · have member := List.mem_singleton_self frame.origin
      rw [← (popped_origin run split).1] at member
      rw [Plane.peer_peer]
      exact (List.mem_filter.mp member).1
    · obtain ⟨front, x, back, _, _, _, _, appended⟩ := popped_at run split
      obtain ⟨nid, bytes⟩ := pushed.1
      refine ⟨trace back, appended rfl ?_⟩
      rw [bytes]
      exact encodeFrame_ne_nil _ _ _ _
  · intro frame pushed
    have inside : frame ∈ sendPushes i (onPlane q (trace taken)) :=
      List.mem_filterMap.mpr ⟨_, mem_onPlane.mpr pushed, by simp⟩
    rw [hubRun_queue run q i] at inside
    rcases List.mem_append.mp inside with popped | queued
    · obtain ⟨e, member, shown⟩ := List.mem_filterMap.mp popped
      cases e with
      | sendPopped j f isOpen =>
          dsimp only at shown
          split at shown
          · rename_i here
            cases shown
            obtain ⟨before, later, split⟩ := List.append_of_mem (mem_onPlane.mp member)
            rw [split]
            exact List.mem_append_left _ (popped_pushed run keeps split).2
          · cases shown
      | _ => cases shown
    · exact ((hubRun_frames run keeps q).send i frame queued).2

def crowding : List Action :=
  let arrive : List ReactorInput :=
    [.poll [⟨5, true, false⟩], .run, .run,
      .recv (.data (businessFrame [1] ++ businessFrame [2])), .run, .run, .run, .run]
  let retry : List ReactorInput := [.run, .run, .recv .wouldBlock, .run, .run]
  linked ++ arrive.map (Action.reactor .kForward 0) ++ [.worker .kForward 0] ++
    retry.map (Action.reactor .kForward 0) ++
    ((forwarding .kForward 0 smallWakeFd 21).drop 1 ++ forwarding .kForward 0 smallWakeFd 20)

def handsBareHeader (entry : Entry) : Bool :=
  match entry.2 with
  | .sendPopped _ frame isOpen =>
      isOpen && (frame.val.bytes.length == kWireHeaderSize && !frame.origin.frame.payload.isEmpty)
  | _ => false

/-- With queues of one slot a frame reaches its subscriber without its payload. -/
theorem retried_frame_loses_payload :
    ∃ taken h, HubRun (smallConfig 1) smallWakeFd taken h ∧
      ∃ q i frame, (q, .sendPopped i frame true) ∈ trace taken ∧ ¬ Complete frame := by
  obtain ⟨taken, h, run, _, seen⟩ := small_run 1 (fun _ => true) crowding
    (fun x => x.2.any handsBareHeader) (by decide +kernel)
  obtain ⟨⟨q, e⟩, member, bare⟩ := List.any_eq_true.mp seen
  cases e with
  | sendPopped i frame isOpen =>
      simp only [handsBareHeader, Bool.and_eq_true, beq_iff_eq, Bool.not_eq_true'] at bare
      obtain ⟨rfl, short, filled⟩ := bare
      refine ⟨taken, h, run, q, i, frame, member, ?_⟩
      rintro ⟨nid, bytes⟩
      have length := congrArg List.length bytes
      rw [short, encodeFrame_length] at length
      have empty : frame.origin.frame.payload = [] :=
        List.eq_nil_of_length_eq_zero (by omega)
      rw [empty] at filled
      cases filled
  | _ => cases bare

def retriesNone (x : Taken HubServer Action Entry) : Bool :=
  match x.act with
  | .reactor p i _ =>
      match ((x.pre.plane p).reactor i).stack with
      | .pushInbound _ _ (_ + 1) :: _ => false
      | _ => true
  | .worker p w =>
      match (x.pre.plane p).worker w with
      | .push _ _ (_ + 1) _ => false
      | _ => true
  | .distributor p =>
      match (x.pre.plane p).distributor with
      | .route _ (_ + 1) => false
      | _ => true
  | _ => true

theorem retriesNone_keepsContent {cfg : HubConfig} {x : Taken HubServer Action Entry}
    (calm : retriesNone x = true) : KeepsContent cfg x := by
  obtain ⟨pre, act, events⟩ := x
  cases act with
  | reactor p i input =>
      cases p with
      | kForward =>
          intro sid msg attempt rest w top
          simp [retriesNone, show (pre.plane .kForward |>.reactor i).stack = _ from top] at calm
      | kBackend => trivial
  | worker p w =>
      intro msg out attempt rest busy
      simp [retriesNone, show (pre.plane p).worker w = _ from busy] at calm
  | distributor p =>
      intro frame attempt j busy
      simp [retriesNone, show (pre.plane p).distributor = _ from busy] at calm
  | _ => trivial

theorem forwarded_content_is_kept_published :
    ∃ taken h, HubRun (smallConfig 4) smallWakeFd taken h ∧
      ∃ i frame, (Plane.kBackend, Event.sendPopped i frame true) ∈ trace taken ∧
        Complete frame := by
  obtain ⟨taken, h, run, inside, seen⟩ := small_run 4 retriesNone publishing
    (fun x => x.2.any fun entry => entry.1 == .kBackend && entry.2.hands) (by decide +kernel)
  dsimp only at seen
  obtain ⟨before, i, frame, later, split⟩ := handed_of_any seen
  have kept := forwarded_content_is_kept run (inside.mono fun _ => retriesNone_keepsContent) .kBackend
  refine ⟨taken, h, run, i, frame, ?_, (kept.1 before i frame later split).1.1⟩
  rw [split]
  simp

end Results

end HiImCore.Hub
