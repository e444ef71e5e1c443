import HiImCore.Hub.Intake
import HiImCore.Hub.Output

/-! The protocol of one session: what the hub answers to a client, whom it takes it for and what
it registers for it depend on the client's own frames alone, in the order they are handled. -/

namespace HiImCore.Hub

open Replay Transition Wire

structure Login where
  authed : Bool
  gid : UInt32
  nid : UInt32
  deriving DecidableEq, Repr

/-- What the hub does for a session at its request. -/
inductive Deed where
  | bind (gid nid : UInt32)
  | subscribe (cmd gid nid : UInt32)
  | unsubscribe (cmd : UInt32)
  | reply (data : Bytes)
  deriving DecidableEq, Repr

namespace Login

def fresh : Login := ⟨false, 0, 0⟩

def after (login : Login) : Deed → Login
  | .bind gid nid => ⟨true, gid, nid⟩
  | _ => login

def authenticate (cfg : HubConfig) (payload : Bytes) : Option (List Deed) :=
  match decodeAuthPayload payload with
  | none => none
  | some auth =>
      if credentialsMatch cfg auth then
        some [.bind (beToHost32 auth.gid) (beToHost32 auth.nid),
          .reply (ackFrame .kAuthAck (beToHost32 auth.nid))]
      else none

def Grants (login : Login) (frame : FrameView) : Prop :=
  login.authed = true ∧ 4 ≤ frame.payload.length

instance (login : Login) (frame : FrameView) : Decidable (login.Grants frame) :=
  inferInstanceAs (Decidable (_ ∧ _))

/-- What a system frame calls for; `none` where the session is closed. -/
def request (cfg : HubConfig) (login : Login) (frame : FrameView) : Option SysCmd → Option (List Deed)
  | some .kAuthReq => authenticate cfg frame.payload
  | some .kSubReq =>
      if login.Grants frame then
        some [.subscribe (requestedCmd frame) login.gid login.nid,
          .reply (ackFrame .kSubAck login.nid)]
      else none
  | some .kUnsubReq =>
      if login.Grants frame then
        some [.unsubscribe (requestedCmd frame), .reply (ackFrame .kUnsubAck login.nid)]
      else some []
  | some .kKpaliveReq => some [.reply (ackFrame .kKpaliveAck login.nid)]
  | _ => some []

def answer (cfg : HubConfig) (login : Login) (frame : FrameView) : Option (List Deed) :=
  if headerFieldHost frame.header WireHeader.flag = kFlagSys then
    login.request cfg frame (SysCmd.ofCode (headerFieldHost frame.header WireHeader.type))
  else if login.authed then some []
  else none

end Login

/-- A conversation: the session's login, unless it was closed, and everything done for it. -/
structure Talk where
  login : Option Login
  deeds : List Deed
  deriving DecidableEq, Repr

namespace Talk

def begun : Talk := ⟨some .fresh, []⟩

def hears (cfg : HubConfig) (talk : Talk) (frame : FrameView) : Talk :=
  match talk.login with
  | none => talk
  | some login =>
      match login.answer cfg frame with
      | none => ⟨none, talk.deeds⟩
      | some more => ⟨some (more.foldl Login.after login), talk.deeds ++ more⟩

end Talk

def converse (cfg : HubConfig) (frames : List FrameView) : Talk := frames.foldl (Talk.hears cfg) .begun

def isSystem (data : Bytes) : Bool :=
  (decodeHeader data).any fun header => headerFieldHost header WireHeader.flag == kFlagSys

def deedOf (k : Nat) : Event → Option Deed
  | .bound _ sid gid nid => if sid = k then some (.bind gid nid) else none
  | .subscribed cmd sub => if sub.sid = k then some (.subscribe cmd sub.gid sub.nid) else none
  | .unsubscribed cmd sid => if sid = k then some (.unsubscribe cmd) else none
  | .appended _ sid data => if sid = k ∧ isSystem data = true then some (.reply data) else none
  | _ => none

/-- What a history shows to be done for session `k` at its request. -/
def deeds (k : Nat) (events : List Event) : List Deed := events.filterMap (deedOf k)

def Deed.event (i k : Nat) : Deed → Event
  | .bind gid nid => .bound i k gid nid
  | .subscribe cmd gid nid => .subscribed cmd ⟨gid, k, nid, i⟩
  | .unsubscribe cmd => .unsubscribed cmd k
  | .reply data => .appended i k data

def Session.login (session : Session) : Login := ⟨session.authed, session.gid, session.nid⟩

def Ident.login (id : Ident) : Login := ⟨id.authed, id.gid, id.nid⟩

section Answers

variable {cfg : HubConfig} {i k : Nat} {pl : PlaneState} {session : Session} {frame : FrameView}

theorem isSystem_encodeFrame (type nid flag : UInt32) (payload : Bytes) :
    isSystem (encodeFrame type nid flag payload) = (flag == kFlagSys) := by
  rw [isSystem, encodeFrame_eq, decodeHeader_bytes_append _ _ (makeHeader_valid ..), Option.any_some]
  simp only [headerFieldHost, makeHeader, beToHost32_hostToBe32]

theorem isSystem_ackFrame (cmd : SysCmd) (nid : UInt32) : isSystem (ackFrame cmd nid) = true :=
  isSystem_encodeFrame ..

def Deed.Sound : Deed → Prop
  | .reply data => isSystem data = true
  | _ => True

theorem authenticate_sound {payload : Bytes} {more : List Deed}
    (answered : Login.authenticate cfg payload = some more) : ∀ d ∈ more, d.Sound := by
  unfold Login.authenticate at answered
  split at answered
  · cases answered
  · split at answered <;> cases answered
    simp [Deed.Sound, isSystem_ackFrame]

theorem request_sound {login : Login} {cmd : Option SysCmd} {more : List Deed}
    (answered : login.request cfg frame cmd = some more) : ∀ d ∈ more, d.Sound := by
  unfold Login.request at answered
  split at answered
  · exact authenticate_sound answered
  · split at answered <;> cases answered
    simp [Deed.Sound, isSystem_ackFrame]
  · split at answered <;> cases answered <;> simp [Deed.Sound, isSystem_ackFrame]
  · cases answered
    simp [Deed.Sound, isSystem_ackFrame]
  · cases answered
    simp

theorem answer_sound {login : Login} {more : List Deed}
    (answered : login.answer cfg frame = some more) : ∀ d ∈ more, d.Sound := by
  unfold Login.answer at answered
  split at answered
  · exact request_sound answered
  · split at answered <;> cases answered
    simp

theorem deedOf_event {d : Deed} (sound : d.Sound) : deedOf k (d.event i k) = some d := by
  cases d with
  | reply data => exact if_pos ⟨rfl, sound⟩
  | _ => exact if_pos rfl

theorem deedOf_event_other {other : Nat} (apart : other ≠ k) (d : Deed) :
    deedOf other (d.event i k) = none := by
  cases d with
  | reply data => exact if_neg fun both => apart both.1.symm
  | _ => exact if_neg apart.symm

theorem deeds_events {more : List Deed} (sound : ∀ d ∈ more, d.Sound) :
    deeds k (more.map (Deed.event i k)) = more := by
  induction more with
  | nil => rfl
  | cons d rest ih =>
      obtain ⟨first, others⟩ := List.forall_mem_cons.mp sound
      rw [List.map_cons, deeds, List.filterMap_cons_some (deedOf_event first)]
      exact congrArg _ (ih others)

theorem deeds_events_other {other : Nat} (apart : other ≠ k) (more : List Deed) :
    deeds other (more.map (Deed.event i k)) = [] := by
  refine List.filterMap_eq_nil_iff.mpr fun e member => ?_
  obtain ⟨d, _, rfl⟩ := List.mem_map.mp member
  exact deedOf_event_other apart d

theorem closeSession_closed (found : (pl.reactor i).sessions k = some session) :
    (closeSession i k pl).events = [.closed i k] := by
  rw [closeSession, found]

theorem handleSystem_answers (cfg : HubConfig) (frame : FrameView)
    (found : (pl.reactor i).sessions k = some session) (own : session.sid = k) :
    (handleSystem cfg i k session frame pl).1.events =
      (session.login.request cfg frame
        (SysCmd.ofCode (headerFieldHost frame.header WireHeader.type))).elim [.closed i k]
          (List.map (Deed.event i k)) := by
  have closes := closeSession_closed found
  have refused : session.authed = false ∨ frame.payload.length < 4 ↔
      ¬ session.login.Grants frame := by
    simp only [Login.Grants, Session.login, not_and_or, Bool.not_eq_true, not_le]
  unfold handleSystem
  simp only [own, refused]
  generalize SysCmd.ofCode (headerFieldHost frame.header WireHeader.type) = cmd
  rcases cmd with _ | cmd
  · rfl
  cases cmd with
  | kAuthReq =>
      unfold Login.request Login.authenticate
      cases decodeAuthPayload frame.payload with
      | none => exact closes
      | some auth =>
          dsimp only
          split
          · rw [sendBytes_ack]
            rfl
          · exact closes
  | kSubReq =>
      unfold Login.request
      by_cases granted : session.login.Grants frame
      · simp only [granted, not_true, if_true, if_false, sendBytes_ack]
        rfl
      · simp only [granted, not_false_iff, if_true, if_false]
        exact closes
  | kUnsubReq =>
      unfold Login.request
      by_cases granted : session.login.Grants frame
      · simp only [granted, not_true, if_true, if_false, sendBytes_ack]
        rfl
      · simp only [granted, not_false_iff, if_true, if_false]
        rfl
  | kKpaliveReq => exact sendBytes_ack ..
  | _ => rfl

end Answers

def Event.Plain (e : Event) : Prop := ∀ k, deedOf k e = none ∧ handledFrames k [e] = []

inductive Utters (cfg : HubConfig) (g : Registry) : List Event → Prop
  | plain {events : List Event} (all : ∀ e ∈ events, e.Plain) : Utters cfg g events
  | business (i : Nat) (o : Origin)
      (flag : headerFieldHost o.frame.header WireHeader.flag ≠ kFlagSys) :
      Utters cfg g [.received i o]
  | system {i k : Nat} {id : Ident} {frame : FrameView} (live : g.conn k = .live i id) :
      Utters cfg g (.system k frame ::
        (id.login.answer cfg frame).elim [.closed i k] (List.map (Deed.event i k)))

section Steps

variable {cfg : HubConfig} {wakeFd : Plane → Nat → Int} {taken : List (Taken HubServer Action Entry)}
  {h post : HubServer} {act : Action} {entries : List Entry} {p : Plane}

theorem plain_of_role {e : Event} (other : e.role ≠ some .reactor) : e.Plain := by
  intro k
  cases e <;> first | exact ⟨rfl, rfl⟩ | exact absurd rfl other

theorem plain_append {i sid : Nat} {data : Bytes} (business : isSystem data = false) :
    (Event.appended i sid data).Plain := by
  intro k
  refine ⟨if_neg ?_, rfl⟩
  rintro ⟨_, system⟩
  rw [business] at system
  cases system

theorem reactorStep_system {i k : Nat} {input : ReactorInput} {pl after : PlaneState}
    {events : List Event} {session : Session} {frame : FrameView} {left : FrameBuffer}
    (pops : Pops pl i k session frame left) (own : session.sid = k)
    (flag : headerFieldHost frame.header WireHeader.flag = kFlagSys)
    (step : reactorStep cfg i input pl = some (after, events)) :
    events = .system k frame :: (session.login.answer cfg frame).elim [.closed i k]
      (List.map (Deed.event i k)) := by
  obtain ⟨rest, top⟩ : ∃ rest, (pl.reactor i).stack = .popLoop k :: rest := by
    obtain ⟨rest, stack⟩ := List.head?_eq_some_iff.mp pops.top
    exact ⟨rest, stack⟩
  have written : ((pl.setSession i k { session with fb := left }).reactor i).sessions k =
      some { session with fb := left } := (writes_setSession _).found
  have answers := handleSystem_answers cfg frame written own
  unfold reactorStep at step
  rw [top] at step
  dsimp only at step
  unfold stepPop at step
  rw [pops.found] at step
  cases input with
  | run =>
      simp only [pops.popped, if_pos flag, answers, Option.some.injEq, Prod.mk.injEq] at step
      rw [← step.2, Login.answer, if_pos flag]
      rfl
  | _ => cases step

theorem reactorStep_utters (run : HubRun cfg wakeFd taken h) {i : Nat} {input : ReactorInput}
    {pl : PlaneState} {events : List Event}
    (step : reactorStep cfg i input (h.plane p) = some (pl, events)) :
    Utters cfg (after (onPlane p (trace taken))) events := by
  obtain ⟨_, agrees⟩ := hubRun_follows run p
  obtain ⟨effect, _⟩ := reactorStep_moves (hubRun_shaped run p) step
  generalize pl.traffic = t at effect
  cases effect with
  | @system k session frame left answer pops flag answered =>
      have live := agrees.live i k session.key (present_of_found pops.found)
      rw [reactorStep_system pops (session_named agrees pops.found) flag step]
      exact .system live
  | received pops flag authed free => exact .business i _ flag
  | @sent item left session front found =>
      refine .plain (List.forall_mem_cons.mpr ⟨fun k => ⟨rfl, rfl⟩, ?_⟩)
      intro e member
      split at member
      · cases member
      · rename_i nonempty
        obtain rfl := List.mem_singleton.mp member
        have queued : item ∈ (h.plane p).sendQueue i := by
          rw [front]
          exact List.mem_cons_self
        have copied := (hubRun_bears run copied_lasting p).send i item queued
        obtain ⟨nid, payload, encoded, _⟩ := copied.resolve_left fun empty => nonempty (by simp [empty])
        refine plain_append ?_
        rw [encoded, isSystem_encodeFrame]
        rfl
  | _ => exact .plain (by simp [Event.Plain, deedOf, handledFrames])

theorem hubStep_utters (run : HubRun cfg wakeFd taken h)
    (step : hubStep cfg h act = some (post, entries)) (p : Plane) :
    Utters cfg (after (onPlane p (trace taken))) (onPlane p entries) := by
  rcases hubStep_reactor (hubRun_shaped run) step p with ⟨i, input, rfl, inside⟩ | ⟨_, _, other⟩
  · exact reactorStep_utters run inside
  · exact .plain fun e member => plain_of_role (other e member)

end Steps

def Conn.Stands (login : Option Login) : Conn → Prop
  | .live _ id => login = some id.login
  | .gone => True
  | _ => login = some .fresh

structure Speaks (cfg : HubConfig) (k : Nat) (history : List Event) : Prop where
  done : deeds k history = (converse cfg (handledFrames k history)).deeds
  stands : ((after history).conn k).Stands (converse cfg (handledFrames k history)).login

section Histories

variable {cfg : HubConfig} {g : Registry} {i k : Nat} {id : Ident} {history events : List Event}

theorem deeds_append (k : Nat) (first second : List Event) :
    deeds k (first ++ second) = deeds k first ++ deeds k second := List.filterMap_append

theorem converse_snoc (frames : List FrameView) (frame : FrameView) :
    converse cfg (frames ++ [frame]) = (converse cfg frames).hears cfg frame := by
  rw [converse, List.foldl_append]
  rfl

theorem Speaks.plain_step {e : Event} (speaks : Speaks cfg k history) (plain : e.Plain)
    (allowed : (after history).Allows e) : Speaks cfg k (history ++ [e]) := by
  obtain ⟨silent, unheard⟩ := plain k
  have frames : handledFrames k (history ++ [e]) = handledFrames k history := by
    rw [handledFrames_append, unheard, List.append_nil]
  have same : deeds k (history ++ [e]) = deeds k history := by
    rw [deeds_append, deeds, deeds, List.filterMap_cons_none silent, List.filterMap_nil,
      List.append_nil]
  refine ⟨by rw [same, frames, speaks.done], ?_⟩
  have stands := speaks.stands
  have step := apply_connStep allowed k
  rw [frames, after, replay_append, replay_cons, replay_nil]
  generalize ((after history).apply e).conn k = next at step
  generalize (after history).conn k = now at step stands
  cases step with
  | bound i id gid nid =>
      rw [deedOf, if_pos rfl] at silent
      cases silent
  | received i id frame authed => simp [handledFrames] at unheard
  | refused fd | closed i id => trivial
  | _ => exact stands

theorem Speaks.plain (speaks : Speaks cfg k history) (all : ∀ e ∈ events, e.Plain)
    (legal : Registry.Legal (after history) events) : Speaks cfg k (history ++ events) := by
  induction events generalizing history with
  | nil => rwa [List.append_nil]
  | cons e rest ih =>
      obtain ⟨first, others⟩ := List.forall_mem_cons.mp all
      obtain ⟨allowed, later⟩ := legal
      have next := ih (speaks.plain_step first allowed) others (by
        rw [after, replay_append]
        exact later)
      rwa [List.append_assoc] at next

theorem event_conn (d : Deed) (live : g.conn k = .live i id) :
    (∃ next, (g.apply (d.event i k)).conn k = .live i next ∧ next.login = id.login.after d) ∧
      ∀ other, other ≠ k → (g.apply (d.event i k)).conn other = g.conn other := by
  have apart : ∀ c other, other ≠ k → (g.setConn k c).conn other = g.conn other := by
    intro c other different
    rw [Registry.setConn_conn, if_neg different]
  cases d with
  | bind gid nid =>
      refine ⟨⟨{ id with authed := true, gid := gid, nid := nid }, ?_, rfl⟩, apart _⟩
      simp only [Deed.event, Registry.apply, Registry.setConn_conn, if_true, live,
        Registry.authenticated]
  | reply data =>
      refine ⟨⟨{ id with out := id.out ++ data }, ?_, rfl⟩, apart _⟩
      simp only [Deed.event, Registry.apply, Registry.setConn_conn, if_true, live,
        Registry.extended]
  | _ => exact ⟨⟨id, live, rfl⟩, fun _ _ => rfl⟩

theorem deeds_conn (more : List Deed) (live : g.conn k = .live i id) :
    (∃ next, (replay Registry.apply g (more.map (Deed.event i k))).conn k = .live i next ∧
      next.login = more.foldl Login.after id.login) ∧
    ∀ other, other ≠ k →
      (replay Registry.apply g (more.map (Deed.event i k))).conn other = g.conn other := by
  induction more generalizing g id with
  | nil => exact ⟨⟨id, live, rfl⟩, fun _ _ => rfl⟩
  | cons d rest ih =>
      obtain ⟨⟨first, now, login⟩, others⟩ := event_conn d live
      obtain ⟨⟨next, later, logins⟩, rests⟩ := ih now
      refine ⟨⟨next, later, ?_⟩, ?_⟩
      · rw [logins, login, List.foldl_cons]
      · intro other apart
        rw [List.map_cons, replay_cons, rests other apart, others other apart]

theorem Speaks.aside (speaks : Speaks cfg k history) (unheard : handledFrames k events = [])
    (silent : deeds k events = [])
    (same : (after (history ++ events)).conn k = (after history).conn k) :
    Speaks cfg k (history ++ events) := by
  have frames : handledFrames k (history ++ events) = handledFrames k history := by
    rw [handledFrames_append, unheard, List.append_nil]
  constructor
  · rw [deeds_append, silent, List.append_nil, frames, speaks.done]
  · rw [frames, same]
    exact speaks.stands

theorem Speaks.hears {frame : FrameView} (speaks : Speaks cfg k history)
    (live : (after history).conn k = .live i id) (heard : handledFrames k events = [frame])
    (done : deeds k events = (id.login.answer cfg frame).getD [])
    (closed : id.login.answer cfg frame = none → (after (history ++ events)).conn k = .gone)
    (stays : ∀ more, id.login.answer cfg frame = some more →
      ∃ next, (after (history ++ events)).conn k = .live i next ∧
        next.login = more.foldl Login.after id.login) :
    Speaks cfg k (history ++ events) := by
  have stands := speaks.stands
  rw [live] at stands
  have talk : converse cfg (handledFrames k (history ++ events)) =
      (converse cfg (handledFrames k history)).hears cfg frame := by
    rw [handledFrames_append, heard, converse_snoc]
  rw [Talk.hears, show (converse cfg (handledFrames k history)).login = _ from stands] at talk
  cases answered : id.login.answer cfg frame with
  | none =>
      simp only [answered] at talk
      constructor
      · rw [talk, deeds_append, done, answered, speaks.done]
        exact List.append_nil _
      · rw [closed answered]
        trivial
  | some more =>
      simp only [answered] at talk
      obtain ⟨next, after, login⟩ := stays more answered
      constructor
      · rw [talk, deeds_append, done, answered, speaks.done]
        rfl
      · rw [after, talk]
        exact congrArg some login.symm

theorem Speaks.business {o : Origin} (speaks : Speaks cfg k history)
    (flag : headerFieldHost o.frame.header WireHeader.flag ≠ kFlagSys)
    (allowed : (after history).Allows (.received i o)) :
    Speaks cfg k (history ++ [.received i o]) := by
  obtain ⟨id, live, authed, _⟩ := allowed
  have conn : (after (history ++ [.received i o])).conn k =
      if k = o.sid then .live i { id with popped := id.popped + 1 } else (after history).conn k := by
    rw [after, replay_append, replay_cons, replay_nil, Registry.apply, Registry.setConn_conn, live]
    rfl
  by_cases here : k = o.sid
  · rw [if_pos here] at conn
    have answered : id.login.answer cfg o.frame = some [] := by
      rw [Login.answer, if_neg flag]
      exact if_pos authed
    have heard : handledFrames k [.received i o] = [o.frame] := by
      simp [handledFrames, here]
    refine speaks.hears (here ▸ live) heard ?_ ?_ ?_
    · rw [answered]
      rfl
    · intro closed
      rw [answered] at closed
      cases closed
    · intro more granted
      rw [answered] at granted
      cases granted
      exact ⟨_, conn, rfl⟩
  · rw [if_neg here] at conn
    refine speaks.aside ?_ rfl conn
    simp [handledFrames, Ne.symm here]

theorem Speaks.system {sid : Nat} {frame : FrameView} (speaks : Speaks cfg k history)
    (live : (after history).conn sid = .live i id) :
    Speaks cfg k (history ++ .system sid frame ::
      (id.login.answer cfg frame).elim [.closed i sid] (List.map (Deed.event i sid))) := by
  have unheard : ∀ more : List Deed, handledFrames k (more.map (Deed.event i sid)) = [] := by
    intro more
    refine List.filterMap_eq_nil_iff.mpr fun e member => ?_
    obtain ⟨d, _, rfl⟩ := List.mem_map.mp member
    cases d <;> rfl
  have first : ∀ events, handledFrames k events = [] →
      handledFrames k (.system sid frame :: events) = if k = sid then [frame] else [] := by
    intro events silent
    rw [← List.singleton_append, handledFrames_append, silent, List.append_nil]
    by_cases here : k = sid
    · simp [handledFrames, here]
    · simp [handledFrames, here, Ne.symm here]
  have replayed : ∀ events other, (after (history ++ .system sid frame :: events)).conn other =
      (replay Registry.apply (after history) events).conn other := by
    intro events other
    rw [after, replay_append, replay_cons]
    rfl
  cases answered : id.login.answer cfg frame with
  | none =>
      have closes := replayed [.closed i sid] k
      rw [replay_cons, replay_nil, Registry.apply] at closes
      have frames := first [.closed i sid] rfl
      by_cases here : k = sid
      · subst here
        rw [if_pos rfl] at frames
        refine speaks.hears live frames ?_ ?_ ?_
        · rw [answered]
          rfl
        · intro _
          rw [Option.elim, closes]
          exact Function.update_self ..
        · intro more granted
          rw [answered] at granted
          cases granted
      · rw [if_neg here] at frames
        refine speaks.aside frames rfl ?_
        rw [Option.elim, closes]
        exact Function.update_of_ne here ..
  | some more =>
      obtain ⟨⟨next, now, login⟩, others⟩ := deeds_conn more live
      have frames := first (more.map (Deed.event i sid)) (unheard more)
      by_cases here : k = sid
      · subst here
        rw [if_pos rfl] at frames
        refine speaks.hears live frames ?_ ?_ ?_
        · rw [answered]
          exact deeds_events (answer_sound answered)
        · intro closed
          rw [answered] at closed
          cases closed
        · intro other granted
          rw [answered] at granted
          cases granted
          exact ⟨next, (replayed _ k).trans now, login⟩
      · rw [if_neg here] at frames
        refine speaks.aside frames ?_ ((replayed _ k).trans (others k here))
        exact deeds_events_other here more

theorem hubRun_speaks {wakeFd : Plane → Nat → Int} {taken : List (Taken HubServer Action Entry)}
    {h : HubServer} (run : HubRun cfg wakeFd taken h) (p : Plane) (k : Nat) :
    Speaks cfg k (onPlane p (trace taken)) := by
  refine run.invariant (fun history _ => Speaks cfg k (onPlane p history)) ⟨rfl, rfl⟩ ?_
  intro past pre act post entries before speaks step
  have legal : Registry.Legal (after (onPlane p (trace past))) (onPlane p entries) := by
    obtain ⟨legal, _⟩ := hubRun_follows (.snoc before step) p
    rw [trace_append, trace_singleton, onPlane_append, Registry.Legal, along_append] at legal
    exact legal.2
  have uttered := hubStep_utters before step p
  rw [onPlane_append]
  generalize onPlane p entries = events at uttered legal
  cases uttered with
  | plain all => exact speaks.plain all legal
  | business i o flag => exact speaks.business flag legal.1
  | system live => exact speaks.system live

/-- The hub follows the protocol with every client, whatever the others do: what it answers, binds,
subscribes and unsubscribes for a session, and the login it gives it, are what the session's own
frames call for in the order they are handled. -/
theorem sessions_follow_the_protocol {wakeFd : Plane → Nat → Int}
    {taken : List (Taken HubServer Action Entry)} {h : HubServer}
    (run : HubRun cfg wakeFd taken h) (p : Plane) (k : Nat) :
    deeds k (onPlane p (trace taken)) =
        (converse cfg (handledFrames k (onPlane p (trace taken)))).deeds ∧
      ∀ i session, ((h.plane p).reactor i).sessions k = some session →
        (converse cfg (handledFrames k (onPlane p (trace taken)))).login = some session.login := by
  have speaks := hubRun_speaks run p k
  refine ⟨speaks.done, ?_⟩
  intro i session found
  have stands := speaks.stands
  rw [(hubRun_follows run p).2.live i k session.key (present_of_found found)] at stands
  exact stands

/-- The subscriber of the small hub. -/
theorem sessions_follow_the_protocol_published :
    ∃ taken h, HubRun (smallConfig 4) smallWakeFd taken h ∧
      (deeds 1 (onPlane .kBackend (trace taken))).length = 4 ∧
      deeds 1 (onPlane .kBackend (trace taken)) =
        (converse (smallConfig 4) (handledFrames 1 (onPlane .kBackend (trace taken)))).deeds := by
  obtain ⟨taken, h, run, _, seen⟩ := small_run 4 (fun _ => true) publishing
    (fun x => (deeds 1 (onPlane .kBackend x.2)).length == 4) (by decide +kernel)
  exact ⟨taken, h, run, beq_iff_eq.mp seen, (sessions_follow_the_protocol run .kBackend 1).1⟩

end Histories

end HiImCore.Hub
