import HiImCore.Hub.Addressing
import HiImCore.Hub.Routing
import HiImCore.Hub.Shutdown

/-! What the shutdown leaves behind: connections that were accepted and not yet registered. -/

namespace HiImCore.Hub

open Replay Transition

section Leaks

variable {cfg : HubConfig} {wakeFd : Plane → Nat → Int}
  {taken later : List (Taken HubServer Action Entry)} {h post : HubServer}

theorem Turn.leaving {i : Nat} {pl mid : PlaneState} {calls : List Task}
    (turn : Turn i pl .closeAll mid calls) : calls = [.closeAll] ∧ mid.connQueue = pl.connQueue := by
  generalize last : Task.closeAll = task at turn
  cases turn with
  | resumed same resumes =>
      cases resumes with
      | nobody => exact ⟨rfl, same.connQueue⟩
      | _ => cases last
  | reads found face writes reads => cases reads <;> cases last
  | sends found face writes some caller => rcases caller with rfl | rfl <;> cases last
  | closes found closes ends =>
      cases ends with
      | shutDown => exact ⟨rfl, closes.connQueue⟩
      | _ => cases last
  | _ => cases last

theorem PlaneStep.leaving {p : Plane} {act : Action} {pl : PlaneState} {events : List Event}
    {g : Registry} (step : PlaneStep cfg h p act pl events) (agrees : Agrees g (h.plane p).core)
    {i : Nat} {conn : NewConnection} (left : ((h.plane p).reactor i).stack.head? = some .closeAll)
    (queued : conn ∈ (h.plane p).connQueue i) :
    (pl.reactor i).stack.head? = some .closeAll ∧ conn ∈ pl.connQueue i := by
  cases step with
  | aside same inRange =>
      rw [same.reactor, same.connQueue]
      exact ⟨left, queued⟩
  | accepted free step =>
      cases acceptStep_accepts step with
      | taken was => exact ⟨left, queued⟩
      | blocking => exact ⟨left, queued⟩
  | listened step =>
      cases listenerStep_listens step with
      | @queued _ _ j was =>
          refine ⟨left, ?_⟩
          dsimp only
          by_cases same : i = j
          · subst same
            rw [Function.update_self]
            exact List.mem_append_left _ queued
          · rwa [Function.update_of_ne same]
      | _ => exact ⟨left, queued⟩
  | distributed step =>
      have apart := distributorStep_apart step
      rw [apart.reactor, apart.connQueue]
      exact ⟨left, queued⟩
  | reacted inside step =>
      rename_i j _
      obtain ⟨task, rest, top, _, ⟨mid, calls, turn, rfl⟩ | rfl⟩ := reactorStep_turns agrees step
      · by_cases same : i = j
        · subst same
          rw [top] at left
          obtain rfl := Option.some.inj left
          obtain ⟨rfl, queue⟩ := turn.leaving
          refine ⟨?_, ?_⟩
          · simp only [PlaneState.setStack, PlaneState.setReactor, Function.update_self]
            rfl
          · change conn ∈ mid.connQueue i
            rwa [queue]
        · obtain ⟨reactor, queue, _⟩ := turn.others same
          refine ⟨?_, ?_⟩
          · simp only [PlaneState.setStack, PlaneState.setReactor, Function.update_of_ne same]
            rwa [reactor]
          · change conn ∈ mid.connQueue i
            rwa [queue]
      · exact ⟨left, queued⟩

def PlaneState.halted (pl : PlaneState) : Bool :=
  (match pl.listener with | .stopped => true | _ => false) &&
    (match pl.worker 0 with | .stopped => true | _ => false) &&
    (match pl.distributor with | .stopped => true | _ => false) &&
    decide ((pl.reactor 0).stack.head? = some .closeAll)

theorem stopped_while_queued :
    ∃ taken h, HubRun (smallConfig 4) smallWakeFd taken h ∧ h.Ended (smallConfig 4) ∧
      ⟨5, 1⟩ ∈ (h.plane .kForward).connQueue 0 := by
  obtain ⟨taken, h, run, _, seen⟩ := small_run 4 (fun _ => true)
    [.accept .kForward 5 true, .listener .kForward, .listener .kForward, .stop .kForward,
      .stop .kBackend, .listener .kForward, .listener .kBackend, .reactor .kForward 0 .run,
      .reactor .kBackend 0 .run, .worker .kForward 0, .worker .kBackend 0, .distributor .kForward,
      .distributor .kBackend]
    (fun x => (x.1.plane .kForward).halted && (x.1.plane .kBackend).halted &&
      decide (⟨5, 1⟩ ∈ (x.1.plane .kForward).connQueue 0) &&
      x.2.all fun e => e.2.role == some .listener) (by decide +kernel)
  simp only [Bool.and_eq_true, decide_eq_true_eq, List.all_eq_true, beq_iff_eq] at seen
  obtain ⟨⟨⟨forward, backend⟩, queued⟩, quiet⟩ := seen
  have halted : ∀ p, (h.plane p).halted = true := by
    intro p
    cases p with
    | kForward => exact forward
    | kBackend => exact backend
  simp only [PlaneState.halted, Bool.and_eq_true, decide_eq_true_eq] at halted
  have one : ∀ i, i < 1 → i = 0 := fun i inside => Nat.lt_one_iff.mp inside
  refine ⟨taken, h, run, ⟨?_, ?_, ?_, ?_⟩, queued⟩
  · intro p
    have idle := (halted p).1.1.1
    split at idle
    · assumption
    · cases idle
  · intro p i inside
    obtain rfl := one i inside
    refine ⟨(halted p).2, fun k => ?_⟩
    cases found : ((h.plane p).reactor 0).sessions k with
    | none => rfl
    | some session =>
        obtain ⟨legal, agrees⟩ := hubRun_follows run p
        obtain ⟨fd, registered⟩ := live_registered legal (live_of_session agrees found)
        cases quiet _ (mem_onPlane.mp registered)
  · intro p w inside
    obtain rfl := one w inside
    have idle := (halted p).1.1.2
    split at idle
    · assumption
    · cases idle
  · intro p
    have idle := (halted p).1.2
    split at idle
    · assumption
    · cases idle

/-- A connection that is in the queue of a reactor which has left its loop is lost: however the hub
goes on, it is neither registered nor closed. -/
theorem queued_connection_is_leaked (run : HubRun cfg wakeFd taken h) (p : Plane) (i : Nat)
    (conn : NewConnection) (left : ((h.plane p).reactor i).stack.head? = some .closeAll)
    (queued : conn ∈ (h.plane p).connQueue i) (more : Run (hubSystem cfg) h later post) :
    conn ∈ (post.plane p).connQueue i ∧ (post.plane p).sockets conn.fd = some conn.sid := by
  have stays : ((post.plane p).reactor i).stack.head? = some .closeAll ∧
      conn ∈ (post.plane p).connQueue i := by
    refine more.invariant (fun _ h => ((h.plane p).reactor i).stack.head? = some .closeAll ∧
      conn ∈ (h.plane p).connQueue i) ⟨left, queued⟩ ?_
    rintro past pre act next events before ⟨still, inside⟩ step
    exact (hubStep_plane p step).leaving (hubRun_follows (run.append before) p).2 still inside
  exact ⟨stays.2, ((hubRun_follows (run.append more) p).2.queued i conn stays.2).2⟩

theorem queued_connection_is_leaked_stopped :
    ∃ taken h, HubRun (smallConfig 4) smallWakeFd taken h ∧
      ∀ later post, Run (hubSystem (smallConfig 4)) h later post →
        (post.plane .kForward).sockets 5 = some 1 := by
  obtain ⟨taken, h, run, ended, queued⟩ := stopped_while_queued
  refine ⟨taken, h, run, fun later post more => ?_⟩
  exact (queued_connection_is_leaked run .kForward 0 ⟨5, 1⟩
    (ended.reactor .kForward 0 Nat.one_pos).1 queued more).2

/-- When the threads of both planes have ended, no subscriber is listed, and the connections that are
still open are those in the queues of the reactors. -/
theorem ended_hub_holds_queued_connections (run : HubRun cfg wakeFd taken h) (ended : h.Ended cfg)
    (p : Plane) :
    (∀ cmd, (h.plane p).router.findSubscribers cmd = []) ∧
      ∀ fd sid, (h.plane p).sockets fd = some sid ↔ ∃ i, ⟨fd, sid⟩ ∈ (h.plane p).connQueue i := by
  obtain ⟨legal, agrees⟩ := hubRun_follows run p
  have dead : ∀ i sid id, (after (onPlane p (trace taken))).conn sid ≠ .live i id := by
    intro i sid id live
    obtain ⟨fd, registered⟩ := live_registered legal live
    have inside := registered_inside run (mem_onPlane.mp registered)
    obtain ⟨session, found, _⟩ := session_of_live agrees live
    rw [(ended.reactor p i inside).2 sid] at found
    cases found
  constructor
  · intro cmd
    have router : (after (onPlane p (trace taken))).router = (h.plane p).router := agrees.router
    refine List.eq_nil_iff_forall_not_mem.mpr fun sub member => ?_
    rw [← router] at member
    obtain ⟨i, id, live, _⟩ := subscriber_live legal member
    exact dead i sub.sid id live
  · intro fd sid
    constructor
    · intro stillOpen
      obtain ⟨holder, holds⟩ := hubRun_accounted run p fd sid stillOpen
      cases holder with
      | listener =>
          rw [PlaneState.Holds, ended.listener p] at holds
          cases holds
      | queue i => exact ⟨i, holds⟩
      | reactor i =>
          obtain ⟨⟨id, live⟩, _⟩ := agrees.holds holds
          exact absurd live (dead i sid id)
    · rintro ⟨i, queued⟩
      exact (agrees.queued i _ queued).2

theorem ended_hub_holds_queued_connections_stopped :
    ∃ taken h, HubRun (smallConfig 4) smallWakeFd taken h ∧
      (∀ cmd, (h.plane .kForward).router.findSubscribers cmd = []) ∧
      (h.plane .kForward).sockets 5 = some 1 := by
  obtain ⟨taken, h, run, ended, queued⟩ := stopped_while_queued
  obtain ⟨nobody, held⟩ := ended_hub_holds_queued_connections run ended .kForward
  exact ⟨taken, h, run, nobody, (held 5 1).mpr ⟨0, queued⟩⟩

end Leaks

end HiImCore.Hub
