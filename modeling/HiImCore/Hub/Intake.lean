import HiImCore.Hub.History
import HiImCore.Hub.Ownership
import HiImCore.Wire.Reassembly

/-! What the hub takes from a connection: the bytes that `recv` returns for a session, and
the frames that are handled for it. -/

namespace HiImCore.Hub

open Replay Transition Wire

inductive Intake : Option FrameBuffer → Bytes → List FrameView → Option FrameBuffer → Prop
  | idle (state : Option FrameBuffer) : Intake state [] [] state
  | opened : Intake none [] [] (some .empty)
  | shut (fb : FrameBuffer) : Intake (some fb) [] [] none
  | appended (fb : FrameBuffer) (data : Bytes) : Intake (some fb) data [] (some (fb.append data))
  | stuck {fb left : FrameBuffer} (popped : fb.tryPopFrame = (none, left)) :
      Intake (some fb) [] [] (some left)
  | handled {fb left : FrameBuffer} {frame : FrameView}
      (popped : fb.tryPopFrame = (some frame, left)) : Intake (some fb) [] [frame] (some left)
  | handledLast {fb left : FrameBuffer} {frame : FrameView}
      (popped : fb.tryPopFrame = (some frame, left)) : Intake (some fb) [] [frame] none
  | expelled {fb left : FrameBuffer} {frame : FrameView}
      (popped : fb.tryPopFrame = (some frame, left)) : Intake (some fb) [] [] none

def PlaneState.buffers (pl : PlaneState) (i k : Nat) : Option FrameBuffer :=
  ((pl.reactor i).sessions k).map Session.fb

def recvData (pl : PlaneState) (i k : Nat) : ReactorInput → Bytes
  | .recv (.data bytes) =>
      if (pl.reactor i).stack.head? = some (.recvLoop k) ∧ ((pl.reactor i).sessions k).isSome then
        bytes
      else []
  | _ => []

/-- The frames handled for session `k`: by `HandleSystem`, or as business frames. -/
def handledFrames (k : Nat) : List Event → List FrameView :=
  List.filterMap fun
    | .system sid frame => if sid = k then some frame else none
    | .received _ origin => if origin.sid = k then some origin.frame else none
    | _ => none

section Buffers

variable {i j k : Nat} {pl : PlaneState}

@[simp] theorem buffers_setStack (stack : List Task) : (pl.setStack i stack).buffers j = pl.buffers j := by
  funext k
  unfold PlaneState.buffers PlaneState.setStack PlaneState.setReactor
  by_cases same : j = i
  · subst same
    simp only [Function.update_self]
  · simp only [Function.update_of_ne same]

@[simp] theorem buffers_updateInterest (fd : Int) (wantRead wantWrite : Bool) :
    (pl.updateInterest i fd wantRead wantWrite).buffers j = pl.buffers j := by
  funext k
  unfold PlaneState.buffers PlaneState.updateInterest PlaneState.setReactor
  split
  · rfl
  · by_cases same : j = i
    · subst same
      simp only [Function.update_self]
    · simp only [Function.update_of_ne same]

@[simp] theorem buffers_setSession (session : Session) :
    (pl.setSession i k session).buffers i = Function.update (pl.buffers i) k (some session.fb) := by
  funext l
  simp only [PlaneState.buffers, PlaneState.setSession, PlaneState.setReactor, Function.update_self,
    Function.update_apply]
  split <;> rfl

theorem buffers_closeSession :
    (closeSession i k pl).state.buffers i = Function.update (pl.buffers i) k none := by
  funext l
  unfold closeSession
  split
  · rename_i absent
    by_cases same : l = k
    · subst same
      simp [PlaneState.buffers, absent]
    · simp [Function.update_of_ne same]
  · simp only [PlaneState.buffers, Function.update_self, Function.update_apply]
    split <;> rfl

theorem buffers_sendBytes {session : Session} (data : Bytes)
    (same : pl.buffers i k = some session.fb) :
    (sendBytes i k session data pl).state.buffers i = pl.buffers i := by
  unfold sendBytes
  split
  · rfl
  · rw [buffers_updateInterest, buffers_setSession, ← same, Function.update_eq_self]

end Buffers

section Steps

variable {cfg : HubConfig} {i : Nat} {input : ReactorInput} {pl mid post : PlaneState}
  {rest : List Task} {events : List Event}

def Takes (i : Nat) (pl : PlaneState) (input : ReactorInput) (events : List Event)
    (post : PlaneState) : Prop :=
  ∀ k, Intake (pl.buffers i k) (recvData pl i k input) (handledFrames k events) (post.buffers i k)

theorem recvData_outside {task : Task} (top : (pl.reactor i).stack = task :: rest) (k : Nat)
    (other : task ≠ .recvLoop k) : recvData pl i k input = [] := by
  unfold recvData
  split
  · refine if_neg fun loop => other ?_
    rw [top] at loop
    exact Option.some.inj loop.1
  · rfl

theorem recvData_absent {k : Nat} (absent : (pl.reactor i).sessions k = none) :
    recvData pl i k input = [] := by
  unfold recvData
  split
  · exact if_neg fun loop => by simp [absent] at loop
  · rfl

theorem takes_quiet (same : post.buffers i = pl.buffers i) (nothing : ∀ k, recvData pl i k input = [])
    (silent : ∀ k, handledFrames k events = []) : Takes i pl input events post := by
  intro k
  rw [nothing, silent, same]
  exact .idle _

theorem takes_at (sid : Nat) (state : Option FrameBuffer)
    (changed : post.buffers i = Function.update (pl.buffers i) sid state)
    (nothing : ∀ k, k ≠ sid → recvData pl i k input = [])
    (silent : ∀ k, k ≠ sid → handledFrames k events = [])
    (intake : Intake (pl.buffers i sid) (recvData pl i sid input) (handledFrames sid events) state) :
    Takes i pl input events post := by
  intro k
  rw [changed]
  by_cases same : k = sid
  · subst same
    rw [Function.update_self]
    exact intake
  · rw [Function.update_of_ne same, nothing k same, silent k same]
    exact .idle _

theorem closeSession_takes (sid : Nat) (nothing : ∀ k, recvData pl i k input = []) :
    Takes i pl input (closeSession i sid pl).events
      ((closeSession i sid pl).state.setStack i rest) := by
  have silent : ∀ k, handledFrames k (closeSession i sid pl).events = [] := by
    intro k
    rw [closeSession_events]
    split <;> rfl
  refine takes_at sid none ?_ (fun k _ => nothing k) (fun k _ => silent k) ?_
  · rw [buffers_setStack, buffers_closeSession]
  · rw [nothing, silent]
    cases pl.buffers i sid with
    | none => exact .idle none
    | some fb => exact .shut fb

variable {g : Registry} (agrees : Agrees g pl.core)

include agrees

omit agrees in
theorem stepRecv_takes {sid : Nat} (top : (pl.reactor i).stack = .recvLoop sid :: rest)
    (step : stepRecv i input pl rest sid = some (post, events)) : Takes i pl input events post := by
  have others : ∀ k, k ≠ sid → recvData pl i k input = [] := by
    intro k other
    refine recvData_outside top k ?_
    intro same
    exact other (Task.recvLoop.inj same).symm
  unfold stepRecv at step
  split at step
  · rename_i absent
    cases step
    refine takes_quiet rfl ?_ (fun k => rfl)
    intro k
    by_cases same : k = sid
    · exact recvData_absent (same ▸ absent)
    · exact others k same
  · rename_i session bytes found
    split at step
    · cases step
      refine takes_at sid (some (session.fb.append bytes)) ?_ others (fun k _ => rfl) ?_
      · rw [buffers_setStack, buffers_setSession]
      · have here : recvData pl i sid (.recv (.data bytes)) = bytes := by
          simp [recvData, top, found]
        rw [here, PlaneState.buffers, found]
        exact .appended session.fb bytes
    · cases step
  · cases step
    exact takes_quiet (buffers_setStack _) (fun k => rfl) (fun k => rfl)
  · cases step
    rw [closeSession_calls]
    exact closeSession_takes _ (fun k => rfl)
  · cases step
    rw [closeSession_calls]
    exact closeSession_takes _ (fun k => rfl)
  · cases step

omit agrees in
theorem handleSystem_buffers {sid : Nat} (session : Session) (frame : FrameView)
    (here : pl.buffers i sid = some session.fb) (named : session.sid = sid) :
    (handleSystem cfg i sid session frame pl).1.state.buffers i = pl.buffers i ∨
      (handleSystem cfg i sid session frame pl).1.state.buffers i =
        Function.update (pl.buffers i) sid none := by
  have closed : (closeSession i session.sid pl).state.buffers i =
      Function.update (pl.buffers i) sid none := by
    rw [buffers_closeSession, named]
  unfold handleSystem
  dsimp only
  split
  · split
    · exact .inr closed
    · rename_i auth _
      split
      · let changed : Session :=
          { session with authed := true, gid := beToHost32 auth.gid, nid := beToHost32 auth.nid }
        have same : (pl.setSession i sid changed).buffers i = pl.buffers i := by
          rw [buffers_setSession, show changed.fb = session.fb from rfl, ← here,
            Function.update_eq_self]
        refine .inl ((buffers_sendBytes _ ?_).trans same)
        exact (congrFun same sid).trans here
      · exact .inr closed
  · split
    · exact .inr closed
    · exact .inl (buffers_sendBytes _ here)
  · split
    · exact .inl rfl
    · exact .inl (buffers_sendBytes _ here)
  · exact .inl (buffers_sendBytes _ here)
  · exact .inl rfl

omit agrees in
theorem handledFrames_system {sid : Nat} {session : Session} {frame : FrameView}
    {answer : List Event} (answered : Answer cfg i sid session frame answer) (k : Nat) :
    handledFrames k (.system sid frame :: answer) = if sid = k then [frame] else [] := by
  have silent : handledFrames k answer = [] := by
    cases answered <;> rfl
  rw [handledFrames, List.filterMap_cons, ← handledFrames, silent]
  by_cases same : sid = k <;> simp [same]

omit agrees in
theorem enqueueInbound_buffers {sid : Nat} (session : Session) (frame : FrameView)
    (here : pl.buffers i sid = some session.fb) (named : session.sid = sid) :
    ((enqueueInbound i sid session frame pl).state.buffers i = pl.buffers i ∧
      ∀ k, handledFrames k (enqueueInbound i sid session frame pl).events =
        if sid = k then [frame] else []) ∨
    ((enqueueInbound i sid session frame pl).state.buffers i =
        Function.update (pl.buffers i) sid none ∧
      ∀ k, handledFrames k (enqueueInbound i sid session frame pl).events = []) := by
  unfold enqueueInbound
  split
  · refine .inr ⟨named ▸ buffers_closeSession, fun k => ?_⟩
    rw [closeSession_events]
    split <;> rfl
  · refine .inl ⟨?_, fun k => ?_⟩
    · rw [buffers_setSession, ← here, Function.update_eq_self]
    · by_cases same : sid = k <;> simp [handledFrames, named, same]

theorem stepPop_takes {sid : Nat} (top : (pl.reactor i).stack = .popLoop sid :: rest)
    (step : stepPop cfg i input pl rest sid = some (post, events)) : Takes i pl input events post := by
  have nothing : ∀ k, recvData pl i k input = [] := by
    intro k
    refine recvData_outside top k ?_
    intro same
    cases same
  unfold stepPop at step
  split at step
  · cases step
    exact takes_quiet rfl nothing (fun k => rfl)
  · rename_i session found
    have before : pl.buffers i sid = some session.fb := by rw [PlaneState.buffers, found]; rfl
    have named := session_named agrees found
    split at step
    · rename_i left popped
      cases step
      refine takes_at sid (some left) ?_ (fun k _ => nothing k) (fun k _ => rfl) ?_
      · rw [buffers_setStack, buffers_setSession]
      · rw [nothing, before]
        exact .stuck popped
    · rename_i frame left popped
      let next : Session := { session with fb := left }
      have after : (pl.setSession i sid next).buffers i = Function.update (pl.buffers i) sid (some left) :=
        buffers_setSession next
      have present : (pl.setSession i sid next).buffers i sid = some next.fb := by
        rw [after, Function.update_self]
      dsimp only at step
      split at step
      · cases step
        have buffers := @handleSystem_buffers cfg i _ sid next frame present named
        have answered : Answer cfg i sid next frame
            (handleSystem cfg i sid next frame (pl.setSession i sid next)).1.events :=
          handleSystem_answer _
        have shown := handledFrames_system answered
        have only := fun k (other : k ≠ sid) => (shown k).trans (if_neg (Ne.symm other))
        have this := (shown sid).trans (if_pos rfl)
        rw [after] at buffers
        rcases buffers with kept | closed
        · refine takes_at sid (some left) ?_ (fun k _ => nothing k) only ?_
          · rw [buffers_setStack, kept]
          · rw [nothing, before, this]
            exact .handled popped
        · refine takes_at sid none ?_ (fun k _ => nothing k) only ?_
          · rw [buffers_setStack, closed, Function.update_idem]
          · rw [nothing, before, this]
            exact .handledLast popped
      · cases step
        have taken := enqueueInbound_buffers next frame present named
        rw [after] at taken
        rcases taken with ⟨kept, shown⟩ | ⟨closed, silent⟩
        · refine takes_at sid (some left) ?_ (fun k _ => nothing k)
            (fun k other => (shown k).trans (if_neg (Ne.symm other))) ?_
          · rw [buffers_setStack, kept]
          · rw [nothing, before, shown, if_pos rfl]
            exact .handled popped
        · refine takes_at sid none ?_ (fun k _ => nothing k) (fun k _ => silent k) ?_
          · rw [buffers_setStack, closed, Function.update_idem]
          · rw [nothing, before, silent]
            exact .expelled popped
  · cases step

omit agrees in
def Idle (i : Nat) (pl : PlaneState) (events : List Event) (post : PlaneState) : Prop :=
  post.buffers i = pl.buffers i ∧ ∀ k, handledFrames k events = []

omit agrees in
theorem idle_setStack (stack : List Task) : Idle i pl [] (pl.setStack i stack) :=
  ⟨buffers_setStack _, fun _ => rfl⟩

omit agrees in
theorem stepPoll_idle (step : stepPoll i input pl rest = some (post, events)) :
    Idle i pl events post := by
  unfold stepPoll at step
  split at step
  · cases step
    exact idle_setStack _
  · cases step
    exact idle_setStack _
  · cases step

omit agrees in
theorem stepEvents_idle {batch : List PollEvent}
    (step : stepEvents i input pl rest batch = some (post, events)) : Idle i pl events post := by
  unfold stepEvents at step
  split at step
  · cases step
    exact idle_setStack _
  · cases step
    exact idle_setStack _
  · cases step

theorem stepReadable_idle {fd : Int} (step : stepReadable i input pl rest fd = some (post, events)) :
    Idle i pl events post := by
  unfold stepReadable at step
  split at step
  · split at step
    · cases step
      exact ⟨buffers_setStack _, fun _ => rfl⟩
    · split at step
      · cases step
        exact idle_setStack _
      · rename_i found
        cases step
        rw [subscript_found agrees found]
        exact idle_setStack _
  · cases step

theorem stepWritable_idle {fd : Int} (step : stepWritable i input pl rest fd = some (post, events)) :
    Idle i pl events post := by
  unfold stepWritable at step
  split at step
  · split at step
    · cases step
      exact idle_setStack _
    · rename_i found
      cases step
      rw [subscript_found agrees found]
      exact idle_setStack _
  · cases step

omit agrees in
theorem stepPush_idle {sid attempt : Nat} {msg : Tagged InboundMessage}
    (step : stepPush cfg i input pl rest sid msg attempt = some (post, events)) :
    Idle i pl events post := by
  unfold stepPush at step
  split at step
  · cases step
    exact ⟨rfl, fun _ => rfl⟩
  · split at step
    · cases step
      exact ⟨buffers_setStack _, fun _ => rfl⟩
    · cases step
      exact idle_setStack _
    · split at step
      · cases step
        exact ⟨rfl, fun _ => rfl⟩
      · cases step
        exact idle_setStack _
  · cases step

omit agrees in
theorem buffers_of_found {sid : Nat} {session : Session}
    (found : (pl.reactor i).sessions sid = some session) : pl.buffers i sid = some session.fb := by
  rw [PlaneState.buffers, found]
  rfl

omit agrees in
theorem stepDrainSend_idle (step : stepDrainSend i input pl rest = some (post, events)) :
    Idle i pl events post := by
  unfold stepDrainSend at step
  split at step
  · cases step
    exact idle_setStack _
  · rename_i item left _
    dsimp only at step
    split at step
    · cases step
      exact ⟨buffers_setStack _, fun _ => rfl⟩
    · rename_i session found
      cases step
      refine ⟨?_, fun k => ?_⟩
      · rw [buffers_setStack]
        exact buffers_sendBytes _ (buffers_of_found found)
      · unfold sendBytes
        split <;> rfl
  · cases step

omit agrees in
theorem stepWrite_takes {sid : Nat} (nothing : ∀ k, recvData pl i k input = [])
    (step : stepWrite i input pl rest sid = some (post, events)) : Takes i pl input events post := by
  unfold stepWrite at step
  split at step
  · cases step
    exact takes_quiet rfl nothing (fun _ => rfl)
  · rename_i session found
    split at step
    · split at step
      · cases step
        exact takes_quiet (by rw [buffers_setStack, buffers_updateInterest]) nothing (fun _ => rfl)
      · cases step
    · split at step
      · split at step
        · cases step
          refine takes_quiet ?_ nothing (fun _ => rfl)
          rw [buffers_setStack, buffers_setSession, ← buffers_of_found found,
            Function.update_eq_self]
        · cases step
      · cases step
        exact takes_quiet (by rw [buffers_setStack, buffers_updateInterest]) nothing (fun _ => rfl)
      · cases step
        rw [closeSession_calls]
        exact closeSession_takes _ nothing
      · cases step
        rw [closeSession_calls]
        exact closeSession_takes _ nothing
      · cases step

theorem stepDrainNew_takes (nothing : ∀ k, recvData pl i k input = [])
    (step : stepDrainNew i input pl rest = some (post, events)) : Takes i pl input events post := by
  unfold stepDrainNew at step
  split at step
  · cases step
    exact takes_quiet (buffers_setStack _) nothing (fun _ => rfl)
  · rename_i conn left popped
    cases step
    have front := pop_some popped
    have absent : (pl.reactor i).sessions conn.sid = none := by
      refine (agrees.fresh (i := i) ?_ i).2
      rw [front]
      exact List.mem_cons_self
    refine takes_at conn.sid (some .empty) ?_ (fun k _ => nothing k) (fun _ _ => rfl) ?_
    · rw [buffers_setStack]
      funext k
      simp only [registerConnection, PlaneState.buffers, PlaneState.setReactor, absent,
        Option.getD_none, Function.update_self, Function.update_apply]
      split <;> rfl
    · rw [nothing, PlaneState.buffers, absent]
      exact .opened
  · cases step

omit agrees in
theorem stepCloseAll_takes (nothing : ∀ k, recvData pl i k input = [])
    (step : stepCloseAll i input pl rest = some (post, events)) : Takes i pl input events post := by
  unfold stepCloseAll at step
  split at step
  · cases step
    rw [closeSession_calls]
    exact closeSession_takes _ nothing
  · cases step

theorem reactorStep_takes (step : reactorStep cfg i input pl = some (post, events)) :
    Takes i pl input events post := by
  have outside : ∀ {task : Task} {rest : List Task}, (pl.reactor i).stack = task :: rest →
      (∀ k, task ≠ .recvLoop k) → ∀ k, recvData pl i k input = [] :=
    fun top other k => recvData_outside top k (other k)
  have idle : ∀ {task : Task} {rest : List Task}, (pl.reactor i).stack = task :: rest →
      (∀ k, task ≠ .recvLoop k) → Idle i pl events post → Takes i pl input events post :=
    fun top other still => takes_quiet still.1 (outside top other) still.2
  unfold reactorStep at step
  split at step
  · cases step
  · exact idle ‹_› (by simp) (stepPoll_idle step)
  · exact idle ‹_› (by simp) (stepEvents_idle step)
  · exact stepDrainNew_takes agrees (outside ‹_› (by simp)) step
  · exact idle ‹_› (by simp) (stepDrainSend_idle step)
  · exact idle ‹_› (by simp) (stepReadable_idle agrees step)
  · exact stepRecv_takes ‹_› step
  · exact stepPop_takes agrees ‹_› step
  · exact idle ‹_› (by simp) (stepPush_idle step)
  · exact idle ‹_› (by simp) (stepWritable_idle agrees step)
  · exact stepWrite_takes (outside ‹_› (by simp)) step
  · exact stepCloseAll_takes (outside ‹_› (by simp)) step

end Steps

section Hub

variable {cfg : HubConfig} {h post : HubServer} {act : Action} {entries : List Entry}

theorem hubStep_reactor (shaped : h.Shaped) (step : hubStep cfg h act = some (post, entries))
    (p : Plane) :
    (∃ i input, act = .reactor p i input ∧
        reactorStep cfg i input (h.plane p) = some (post.plane p, onPlane p entries)) ∨
      (∀ i input, act ≠ .reactor p i input) ∧ (post.plane p).reactor = (h.plane p).reactor ∧
        ∀ e ∈ onPlane p entries, e.role ≠ some .reactor := by
  have effect := (hubStep_effect shaped step).1
  by_cases mine : ∃ i input, act = .reactor p i input
  · left
    obtain ⟨i, input, rfl⟩ := mine
    refine ⟨i, input, rfl, ?_⟩
    unfold hubStep at step
    split at step
    · cases step
    · dsimp only at step
      split at step
      · obtain ⟨pl, events, done, rfl, rfl⟩ := localStep_some step
        rw [HubServer.setPlane_self, onPlane_map, if_pos rfl]
        exact done
      · cases step
  · right
    have other : ∀ i input, act ≠ .reactor p i input := fun i input same => mine ⟨i, input, same⟩
    refine ⟨other, ?_, ?_⟩
    · cases hubStep_plane p step with
      | aside same inRange => exact same.reactor
      | accepted free step => exact (acceptStep_listening step).2.1
      | listened step => exact (listenerStep_listening step).2.1
      | reacted inside step => exact absurd rfl (other _ _)
      | distributed step => exact (distributorStep_apart step).reactor
    · intro e member role
      obtain ⟨i, input, _, _, same, _⟩ := effect.of_reactor (mem_onPlane.mp member) role
      exact other i input same

def recvIn (p : Plane) (k : Nat) (x : Taken HubServer Action Entry) : Bytes :=
  match x.act with
  | .reactor q i input => if q = p then recvData (x.pre.plane p) i k input else []
  | _ => []

def arrivedBytes (p : Plane) (k : Nat) (taken : List (Taken HubServer Action Entry)) : Bytes :=
  taken.flatMap (recvIn p k)

theorem hubStep_takes {g : Registry} {p : Plane} (shaped : h.Shaped)
    (agrees : Agrees g (h.plane p).core) (step : hubStep cfg h act = some (post, entries))
    (k : Nat) :
    ∃ i, Intake ((h.plane p).buffers i k) (recvIn p k ⟨h, act, entries⟩)
        (handledFrames k (onPlane p entries)) ((post.plane p).buffers i k) ∧
      ∀ j, j ≠ i → (post.plane p).buffers j k = (h.plane p).buffers j k := by
  rcases hubStep_reactor shaped step p with ⟨i, input, rfl, inside⟩ | ⟨other, same, silent⟩
  · refine ⟨i, ?_, ?_⟩
    · have takes := reactorStep_takes agrees inside k
      rwa [show recvIn p k ⟨h, .reactor p i input, entries⟩ = recvData (h.plane p) i k input from
        if_pos rfl]
    · intro j different
      obtain ⟨task, rest, top, _, ⟨mid, calls, turn, done⟩ | done⟩ := reactorStep_turns agrees inside
      · rw [done, buffers_setStack]
        unfold PlaneState.buffers
        rw [(turn.others different).1]
      · rw [done]
        rfl
  · refine ⟨0, ?_, ?_⟩
    · have nothing : recvIn p k ⟨h, act, entries⟩ = [] := by
        unfold recvIn
        split
        · rename_i q i input whole
          refine if_neg ?_
          rintro rfl
          exact other i input whole
        · rfl
      have unhandled : handledFrames k (onPlane p entries) = [] := by
        refine List.filterMap_eq_nil_iff.mpr fun e member => ?_
        cases e with
        | system => exact absurd rfl (silent _ member)
        | received => exact absurd rfl (silent _ member)
        | _ => rfl
      have unchanged : (post.plane p).buffers 0 k = (h.plane p).buffers 0 k := by
        unfold PlaneState.buffers
        rw [same]
      rw [nothing, unhandled, unchanged]
      exact .idle _
    · intro j _
      unfold PlaneState.buffers
      rw [same]

end Hub

section Runs

variable {cfg : HubConfig} {wakeFd : Plane → Nat → Int}
  {taken : List (Taken HubServer Action Entry)} {h : HubServer}

def Conn.Started : Conn → Prop
  | .live .. | .gone => True
  | _ => False

theorem ConnStep.started {k : Nat} {e : Event} {c next : Conn} (step : ConnStep k e c next)
    (started : c.Started) : next.Started := by
  cases step <;> first | exact started | trivial

theorem started_stays {g : Registry} {events : List Event} (legal : Registry.Legal g events) (k : Nat)
    (started : (g.conn k).Started) : ((replay Registry.apply g events).conn k).Started := by
  refine along_invariant Registry.apply (fun _ g => (g.conn k).Started) legal started ?_
  intro past t e _ _ before allowed
  exact (apply_connStep allowed k).started before

theorem gone_along {g : Registry} {events : List Event} (legal : Registry.Legal g events) (k : Nat)
    (gone : g.conn k = .gone) : (replay Registry.apply g events).conn k = .gone := by
  refine along_invariant Registry.apply (fun _ g => g.conn k = .gone) legal gone ?_
  intro past t e _ _ before allowed
  exact gone_stays allowed before

theorem Intake.calls {fb : FrameBuffer} {data : Bytes} {frames : List FrameView}
    {state : Option FrameBuffer} (intake : Intake (some fb) data frames state) :
    ∃ calls lost, fed calls = data ∧ (serve fb calls).1 = frames ++ lost ∧ lost.length ≤ 1 ∧
      ∀ left, state = some left → serve fb calls = (frames, left) := by
  cases intake with
  | idle =>
      refine ⟨[], [], rfl, rfl, Nat.zero_le 1, ?_⟩
      rintro left ⟨⟩
      rfl
  | shut => exact ⟨[], [], rfl, rfl, Nat.zero_le 1, nofun⟩
  | appended _ data =>
      refine ⟨[.append data], [], List.append_nil data, rfl, Nat.zero_le 1, ?_⟩
      rintro left ⟨⟩
      rfl
  | stuck popped =>
      refine ⟨[.tryPopFrame], [], rfl, ?_, Nat.zero_le 1, ?_⟩
      · simp only [serve, popped, List.append_nil]
      · rintro left ⟨⟩
        simp only [serve, popped]
  | handled popped =>
      refine ⟨[.tryPopFrame], [], rfl, ?_, Nat.zero_le 1, ?_⟩
      · simp only [serve, popped, List.append_nil]
      · rintro left ⟨⟩
        simp only [serve, popped]
  | handledLast popped =>
      refine ⟨[.tryPopFrame], [], rfl, ?_, Nat.zero_le 1, nofun⟩
      simp only [serve, popped, List.append_nil]
  | @expelled _ _ frame popped =>
      refine ⟨[.tryPopFrame], [frame], rfl, ?_, Nat.le_refl 1, nofun⟩
      simp only [serve, popped, List.nil_append]

structure Explains (p : Plane) (k : Nat) (taken : List (Taken HubServer Action Entry))
    (h : HubServer) (calls : List Call) : Prop where
  arrived : fed calls = arrivedBytes p k taken
  popped : ∃ lost, (serve .empty calls).1 = handledFrames k (onPlane p (trace taken)) ++ lost ∧
    lost.length ≤ 1
  present : ∀ i fb, (h.plane p).buffers i k = some fb →
    serve .empty calls = (handledFrames k (onPlane p (trace taken)), fb)
  absent : ¬ ((after (onPlane p (trace taken))).conn k).Started → calls = []

theorem handledFrames_append (k : Nat) (first second : List Event) :
    handledFrames k (first ++ second) = handledFrames k first ++ handledFrames k second :=
  List.filterMap_append

theorem Agrees.live_of_buffer {g : Registry} {pl : PlaneState} (agrees : Agrees g pl.core)
    {i k : Nat} {fb : FrameBuffer} (open_ : pl.buffers i k = some fb) :
    ∃ id, g.conn k = .live i id := by
  obtain ⟨session, found, _⟩ := Option.map_eq_some_iff.mp open_
  exact ⟨_, agrees.live i k session.key (present_of_found found)⟩

theorem Agrees.buffer_home {g : Registry} {pl : PlaneState} (agrees : Agrees g pl.core)
    {i j k : Nat} {fb other : FrameBuffer} (here : pl.buffers i k = some fb)
    (there : pl.buffers j k = some other) : j = i := by
  obtain ⟨_, one⟩ := agrees.live_of_buffer here
  obtain ⟨_, two⟩ := agrees.live_of_buffer there
  rw [one] at two
  exact (Conn.live.inj two).1.symm

section Step

variable {pre post : HubServer} {act : Action} {entries : List Entry} {p : Plane} {i k : Nat}
  {calls : List Call}

theorem arrivedBytes_snoc (x : Taken HubServer Action Entry) :
    arrivedBytes p k (taken ++ [x]) = arrivedBytes p k taken ++ recvIn p k x := by
  simp [arrivedBytes]

theorem handledFrames_snoc (x : Taken HubServer Action Entry) :
    handledFrames k (onPlane p (trace (taken ++ [x]))) =
      handledFrames k (onPlane p (trace taken)) ++ handledFrames k (onPlane p x.events) := by
  rw [trace_append, trace_singleton, onPlane_append, handledFrames_append]

theorem started_snoc {x : Taken HubServer Action Entry}
    (legal : Registry.Legal (after (onPlane p (trace taken))) (onPlane p x.events))
    (started : ((after (onPlane p (trace taken))).conn k).Started) :
    ((after (onPlane p (trace (taken ++ [x])))).conn k).Started := by
  rw [trace_append, trace_singleton, onPlane_append, after, replay_append]
  exact started_stays legal k started

theorem Explains.open_step (explains : Explains p k taken pre calls)
    (agrees : Agrees (after (onPlane p (trace taken))) (pre.plane p).core)
    (legal : Registry.Legal (after (onPlane p (trace taken))) (onPlane p entries))
    {fb : FrameBuffer} (here : (pre.plane p).buffers i k = some fb)
    (intake : Intake (some fb) (recvIn p k ⟨pre, act, entries⟩)
      (handledFrames k (onPlane p entries)) ((post.plane p).buffers i k))
    (others : ∀ j, j ≠ i → (post.plane p).buffers j k = (pre.plane p).buffers j k) :
    ∃ calls, Explains p k (taken ++ [⟨pre, act, entries⟩]) post calls := by
  obtain ⟨more, lost, arrived, popped, few, left⟩ := intake.calls
  have before := explains.present i fb here
  refine ⟨calls ++ more, ?_, ⟨lost, ?_, few⟩, ?_, ?_⟩
  · rw [fed_append, explains.arrived, arrived, arrivedBytes_snoc]
  · rw [serve_append, before, handledFrames_snoc, List.append_assoc, ← popped]
  · intro j after open_
    have home : j = i := by
      by_contra other
      rw [others j other] at open_
      exact other (agrees.buffer_home here open_)
    subst home
    rw [serve_append, before, left after open_, handledFrames_snoc]
  · intro never
    obtain ⟨id, live⟩ := agrees.live_of_buffer here
    have started : ((after (onPlane p (trace taken))).conn k).Started := by
      rw [live]
      trivial
    exact absurd (started_snoc legal started) never

theorem Explains.closed_step (explains : Explains p k taken pre calls)
    (agrees : Agrees (after (onPlane p (trace taken))) (pre.plane p).core)
    (legal : Registry.Legal (after (onPlane p (trace taken))) (onPlane p entries))
    (agreesAfter : Agrees (replay Registry.apply (after (onPlane p (trace taken))) (onPlane p entries))
      (post.plane p).core)
    (here : (pre.plane p).buffers i k = none)
    (intake : Intake none (recvIn p k ⟨pre, act, entries⟩)
      (handledFrames k (onPlane p entries)) ((post.plane p).buffers i k))
    (others : ∀ j, j ≠ i → (post.plane p).buffers j k = (pre.plane p).buffers j k) :
    Explains p k (taken ++ [⟨pre, act, entries⟩]) post calls := by
  have still : recvIn p k ⟨pre, act, entries⟩ = [] ∧ handledFrames k (onPlane p entries) = [] ∧
      ∀ fb, (post.plane p).buffers i k = some fb → fb = .empty := by
    generalize recvIn p k ⟨pre, act, entries⟩ = data, handledFrames k (onPlane p entries) = frames,
      (post.plane p).buffers i k = state at intake
    cases intake with
    | idle => exact ⟨rfl, rfl, nofun⟩
    | opened =>
        refine ⟨rfl, rfl, ?_⟩
        rintro fb ⟨⟩
        rfl
  obtain ⟨nothing, unhandled, fresh⟩ := still
  refine ⟨?_, ?_, ?_, ?_⟩
  · rw [arrivedBytes_snoc, nothing, List.append_nil, explains.arrived]
  · rw [handledFrames_snoc, unhandled, List.append_nil]
    exact explains.popped
  · intro j fb open_
    rw [handledFrames_snoc, unhandled, List.append_nil]
    by_cases home : j = i
    · subst home
      -- the step has opened the session, so it was not registered before
      have unstarted : ¬ ((after (onPlane p (trace taken))).conn k).Started := by
        intro started
        obtain ⟨id, live⟩ := agreesAfter.live_of_buffer open_
        cases was : (after (onPlane p (trace taken))).conn k with
        | gone =>
            rw [gone_along legal k was] at live
            cases live
        | live l id =>
            obtain ⟨key, present, _⟩ := agrees.keyed l k id was
            obtain ⟨session, found, _⟩ := Option.map_eq_some_iff.mp present
            have old := buffers_of_found found
            by_cases same : l = j
            · subst same
              rw [here] at old
              cases old
            · exact same (agreesAfter.buffer_home open_ ((others l same).trans old))
        | _ =>
            rw [was] at started
            exact started
      obtain rfl := explains.absent unstarted
      obtain ⟨lost, all, _⟩ := explains.popped
      rw [fresh fb open_, (List.append_eq_nil_iff.mp all.symm).1]
      rfl
    · exact explains.present j fb ((others j home).symm.trans open_)
  · intro never
    exact explains.absent fun started => never (started_snoc legal started)

end Step

theorem hubRun_explained (run : HubRun cfg wakeFd taken h) (p : Plane) (k : Nat) :
    ∃ calls, Explains p k taken h calls := by
  induction run with
  | nil =>
      refine ⟨[], rfl, ⟨[], rfl, Nat.zero_le 1⟩, ?_, fun _ => rfl⟩
      rintro i fb ⟨⟩
  | snoc earlier step ih =>
      obtain ⟨calls, explains⟩ := ih
      obtain ⟨_, agrees⟩ := hubRun_follows earlier p
      obtain ⟨legal, agreesAfter⟩ := hubStep_follows p agrees step
      obtain ⟨i, intake, others⟩ := hubStep_takes (hubRun_shaped earlier) agrees step k
      generalize here : (_ : PlaneState).buffers i k = state at intake
      cases state with
      | none => exact ⟨calls, explains.closed_step agrees legal agreesAfter here intake others⟩
      | some fb => exact explains.open_step agrees legal here intake others

theorem hubRun_in_step (run : HubRun cfg wakeFd taken h) (p : Plane) (k : Nat) (frames : List Frame)
    (t : Bytes) (cut : Unfinished t) (sent : arrivedBytes p k taken <+: stream frames ++ t) :
    ∃ calls done todo, Explains p k taken h calls ∧ frames = done ++ todo ∧
      (serve .empty calls).1 = done.map Frame.view ∧
      arrivedBytes p k taken = stream done ++ (serve .empty calls).2.buf := by
  obtain ⟨calls, explains⟩ := hubRun_explained run p k
  obtain ⟨later, whole⟩ := sent
  have sync : FrameBuffer.empty.buf ++ fed calls ++ later = stream frames ++ t := by
    rw [explains.arrived]
    exact whole
  obtain ⟨done, todo, split, popped, spent, _⟩ := serve_sync calls .empty frames t later cut sync
  rw [explains.arrived] at spent
  exact ⟨calls, done, todo, explains, split, popped, spent⟩

theorem handled_initial (run : HubRun cfg wakeFd taken h) (p : Plane) (k : Nat) (frames : List Frame)
    (t : Bytes) (cut : Unfinished t) (sent : arrivedBytes p k taken <+: stream frames ++ t) :
    handledFrames k (onPlane p (trace taken)) <+: frames.map Frame.view := by
  obtain ⟨calls, done, todo, explains, split, popped, _⟩ := hubRun_in_step run p k frames t cut sent
  obtain ⟨lost, handled, _⟩ := explains.popped
  refine ⟨lost ++ todo.map Frame.view, ?_⟩
  rw [← List.append_assoc, ← handled, popped, split, List.map_append]

/-- The frames handled for a session are those its client sent, each once and in order, however
`recv` cuts the stream: as long as the session is open they are the frames whose last byte has
been taken from the buffer, and when it is closed at most one more frame was popped. -/
theorem handled_frames_are_those_sent (run : HubRun cfg wakeFd taken h) (p : Plane) (k : Nat)
    (frames : List Frame) (t : Bytes) (cut : Unfinished t)
    (sent : arrivedBytes p k taken <+: stream frames ++ t) :
    ∃ done todo, frames = done ++ todo ∧
      (∃ lost, done.map Frame.view = handledFrames k (onPlane p (trace taken)) ++ lost ∧
        lost.length ≤ 1) ∧
      ∀ i session, ((h.plane p).reactor i).sessions k = some session →
        handledFrames k (onPlane p (trace taken)) = done.map Frame.view ∧
        arrivedBytes p k taken = stream done ++ session.fb.buf := by
  obtain ⟨calls, done, todo, explains, split, popped, spent⟩ :=
    hubRun_in_step run p k frames t cut sent
  refine ⟨done, todo, split, ?_, ?_⟩
  · rw [← popped]
    exact explains.popped
  · intro i session found
    have serves := explains.present i session.fb (buffers_of_found found)
    rw [serves] at popped spent
    exact ⟨popped, spent⟩

def publisherFrames : List Frame :=
  [⟨SysCmd.kAuthReq.code, 1, kFlagSys, (makeAuthPayload 1 [] [] 1).bytes, by decide⟩,
    ⟨9, 0, kFlagExp, [1], by decide⟩, ⟨9, 0, kFlagExp, [2], by decide⟩]

theorem handled_frames_are_those_sent_published :
    ∃ taken h, HubRun (smallConfig 4) smallWakeFd taken h ∧
      (handledFrames 1 (onPlane .kForward (trace taken))).length = 3 ∧
      ∃ done todo, publisherFrames = done ++ todo ∧
        ∃ lost, done.map Frame.view = handledFrames 1 (onPlane .kForward (trace taken)) ++ lost ∧
          lost.length ≤ 1 := by
  obtain ⟨taken, h, run, seen⟩ := run_of_record (hubSystem (smallConfig 4)) (.init smallWakeFd)
    (linked ++ sending .kForward 0 5 [businessFrame [1], businessFrame [2]])
    (fun x => arrivedBytes .kForward 1 x.2 == stream publisherFrames &&
      (handledFrames 1 (onPlane .kForward (trace x.2))).length == 3) (by decide +kernel)
  simp only [Bool.and_eq_true, beq_iff_eq] at seen
  have sent : arrivedBytes .kForward 1 taken <+: stream publisherFrames ++ [] := by
    simp only [seen.1, List.append_nil, List.prefix_rfl]
  obtain ⟨done, todo, split, popped, _⟩ :=
    handled_frames_are_those_sent run .kForward 1 publisherFrames [] nothing_unfinished sent
  exact ⟨taken, h, run, seen.2, done, todo, split, popped⟩

end Runs

end HiImCore.Hub
