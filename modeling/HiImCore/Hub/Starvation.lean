import HiImCore.Hub.Shutdown

/-! `HandleReadable` reads on while there is data: a client that keeps sending keeps the reactor. -/

namespace HiImCore.Hub

open Transition Wire

theorem empty_payload_fits : ([] : Bytes).length < 2 ^ 32 := by decide

def idleFrame : Frame := ⟨0, 0, kFlagSys, [], empty_payload_fits⟩

def PlaneState.holding (pl : PlaneState) (i k : Nat) (session : Session) (fb : FrameBuffer)
    (stack : List Task) : PlaneState :=
  (pl.setSession i k { session with fb := fb }).setStack i stack

section Holding

variable (cfg : HubConfig) {pl : PlaneState} {i k : Nat} {session : Session} {fb : FrameBuffer}
  {rest : List Task}

theorem holding_stack (stack : List Task) :
    ((pl.holding i k session fb stack).reactor i).stack = stack := by
  simp only [PlaneState.holding, PlaneState.setStack, PlaneState.setReactor, Function.update_self]

theorem holding_session (stack : List Task) :
    ((pl.holding i k session fb stack).reactor i).sessions k = some { session with fb := fb } := by
  simp only [PlaneState.holding, PlaneState.setStack, PlaneState.setSession, PlaneState.setReactor,
    Function.update_self]

theorem holding_again (first stack : List Task) (next : FrameBuffer) :
    ((pl.holding i k session fb first).setSession i k { session with fb := next }).setStack i stack =
      pl.holding i k session next stack := by
  simp only [PlaneState.holding, PlaneState.setStack, PlaneState.setSession, PlaneState.setReactor,
    Function.update_self, Function.update_idem]

theorem holding_self (found : (pl.reactor i).sessions k = some session) :
    pl.holding i k session session.fb (pl.reactor i).stack = pl := by
  have sessions : Function.update (pl.reactor i).sessions k (some session) =
      (pl.reactor i).sessions := by
    rw [← found, Function.update_eq_self]
  simp only [PlaneState.holding, PlaneState.setStack, PlaneState.setSession, PlaneState.setReactor,
    sessions, Function.update_eq_self]

theorem holding_receives {bytes : Bytes} (nonempty : 0 < bytes.length)
    (within : bytes.length ≤ kRecvSize) :
    reactorStep cfg i (.recv (.data bytes)) (pl.holding i k session fb (.recvLoop k :: rest)) =
      some (pl.holding i k session (fb.append bytes) (.popLoop k :: rest), []) := by
  simp only [reactorStep, holding_stack, stepRecv, holding_session, nonempty, within, and_self, if_true]
  exact congrArg (fun pl => some (pl, [])) (holding_again ..)

theorem holding_passes :
    reactorStep cfg i .run (pl.holding i k session ⟨idleFrame.encode⟩ (.popLoop k :: rest)) =
      some (pl.holding i k session .empty (.popLoop k :: rest), [.system k idleFrame.view]) := by
  have popped : FrameBuffer.tryPopFrame ⟨idleFrame.encode⟩ = (some idleFrame.view, .empty) := by
    have alone := tryPopFrame_encode idleFrame []
    rwa [List.append_nil] at alone
  obtain ⟨type, _, flag, _⟩ := idleFrame.view_shows
  have unknown : SysCmd.ofCode (headerFieldHost idleFrame.view.header WireHeader.type) = none := by
    rw [type]
    rfl
  have isSys : headerFieldHost idleFrame.view.header WireHeader.flag = kFlagSys := flag
  simp only [reactorStep, holding_stack, stepPop, holding_session, popped, isSys, if_true, handleSystem,
    unknown]
  exact congrArg (fun pl => some (pl, [Event.system k idleFrame.view])) (holding_again ..)

theorem holding_waits :
    reactorStep cfg i .run (pl.holding i k session .empty (.popLoop k :: rest)) =
      some (pl.holding i k session .empty (.recvLoop k :: rest), []) := by
  simp only [reactorStep, holding_stack, stepPop, holding_session, FrameBuffer.tryPopFrame_empty]
  exact congrArg (fun pl => some (pl, [])) (holding_again ..)

end Holding

section Rounds

variable {cfg : HubConfig} {h : HubServer} {p : Plane} {i k : Nat} {session : Session}
  {rest : List Task}

theorem holding_step {before after : PlaneState} {input : ReactorInput} {events : List Event}
    (inside : i < cfg.reactors) (sound : (h.setPlane p before).sound = true)
    (step : reactorStep cfg i input before = some (after, events)) :
    (hubSystem cfg).step (h.setPlane p before) (.reactor p i input) =
      some (h.setPlane p after, events.map (Prod.mk p)) := by
  simp only [hubSystem, hubStep, sound, Bool.true_eq_false, if_false, inside, if_true, HubServer.setPlane_self,
    step, localStep, Option.map_some]
  simp only [HubServer.setPlane, Function.update_idem]

theorem holding_sound (sound : h.sound = true) (fb : FrameBuffer) (stack : List Task) :
    (h.setPlane p ((h.plane p).holding i k session fb stack)).sound = true := by
  have same : ∀ q, ((h.setPlane p ((h.plane p).holding i k session fb stack)).plane q).fault =
      (h.plane q).fault :=
    HubServer.forall_setPlane (P := fun q pl => pl.fault = (h.plane q).fault) rfl fun q => rfl
  rw [HubServer.sound, same, same]
  exact sound

theorem holding_round (sound : h.sound = true) (inside : i < cfg.reactors)
    (top : ((h.plane p).reactor i).stack = .recvLoop k :: rest)
    (found : ((h.plane p).reactor i).sessions k = some session) (waiting : session.fb = .empty) :
    ∃ more, Run (hubSystem cfg) h more h ∧ more.length = 3 ∧
      ∀ x ∈ more, ∃ input, x.act = .reactor p i input := by
  have still := holding_self found
  rw [top, waiting] at still
  have start : h.setPlane p ((h.plane p).holding i k session .empty (.recvLoop k :: rest)) = h := by
    rw [still, HubServer.setPlane, Function.update_eq_self]
  have first := holding_step inside (holding_sound sound ..)
    (@holding_receives cfg (h.plane p) i k session .empty rest idleFrame.encode (by decide) (by decide))
  have second := holding_step inside (holding_sound sound ..)
    (@holding_passes cfg (h.plane p) i k session rest)
  have third := holding_step inside (holding_sound sound ..)
    (@holding_waits cfg (h.plane p) i k session rest)
  rw [start] at first third
  refine ⟨_, .snoc (.snoc (.snoc .nil first) second) third, rfl, ?_⟩
  simp

/-- A client that sends on keeps its reactor in `HandleReadable` for as long as it likes: the other
sessions of the reactor are not served, and after `Stop` the thread does not end. -/
theorem client_can_hold_its_reactor (sound : h.sound = true) (inside : i < cfg.reactors)
    (top : ((h.plane p).reactor i).stack = .recvLoop k :: rest)
    (found : ((h.plane p).reactor i).sessions k = some session) (waiting : session.fb = .empty)
    (n : Nat) :
    ∃ more, Run (hubSystem cfg) h more h ∧ more.length = 3 * n ∧
      ∀ x ∈ more, ∃ input, x.act = .reactor p i input := by
  induction n with
  | zero => exact ⟨[], .nil, rfl, by simp⟩
  | succ n ih =>
      obtain ⟨before, run, size, only⟩ := ih
      obtain ⟨round, again, three, same⟩ := holding_round sound inside top found waiting
      refine ⟨before ++ round, run.append again, ?_, ?_⟩
      · rw [List.length_append, size, three, Nat.mul_succ]
      · intro x member
        rcases List.mem_append.mp member with early | late
        · exact only x early
        · exact same x late

/-- The hub is stopped while a reactor reads. -/
theorem client_can_hold_its_reactor_stopped :
    ∃ taken h, HubRun (smallConfig 4) smallWakeFd taken h ∧ (h.plane .kForward).running = false ∧
      ∀ n, ∃ more, Run (hubSystem (smallConfig 4)) h more h ∧ more.length = 3 * n := by
  obtain ⟨taken, h, run, _, seen⟩ := small_run 4 (fun _ => true)
    (connecting .kForward 0 smallWakeFd 5 ++
      [.reactor .kForward 0 (.poll [⟨5, true, false⟩]), .reactor .kForward 0 .run,
        .reactor .kForward 0 .run, .stop .kForward, .stop .kBackend])
    (fun x => x.1.sound && !(x.1.plane .kForward).running &&
      decide (((x.1.plane .kForward).reactor 0).stack = [.recvLoop 1, .events [], .drainSendQueue, .poll]) &&
      decide ((((x.1.plane .kForward).reactor 0).sessions 1).map Session.fb = some .empty))
    (by decide +kernel)
  simp only [Bool.and_eq_true, decide_eq_true_eq, Bool.not_eq_true', Option.map_eq_some_iff] at seen
  obtain ⟨⟨⟨sound, stopped⟩, top⟩, session, found, waiting⟩ := seen
  refine ⟨taken, h, run, stopped, fun n => ?_⟩
  obtain ⟨more, again, size, _⟩ :=
    @client_can_hold_its_reactor (smallConfig 4) _ _ _ _ _ _ sound Nat.one_pos top found waiting n
  exact ⟨more, again, size⟩

end Rounds

end HiImCore.Hub
