import HiImCore.Hub.History
import HiImCore.Hub.Ownership

/-! The events that a reactor waits for on behalf of its sessions. -/

namespace HiImCore.Hub

open Transition Wire

structure Reactor.Watched (r : Reactor) : Prop where
  armed : ∀ k session, r.sessions k = some session →
    ∃ write, r.interest session.fd = some ⟨true, write⟩
  settled : ∀ k session, r.sessions k = some session → r.stack.head? ≠ some (.writeLoop k) →
    r.interest session.fd = some ⟨true, !session.outbuf.isEmpty⟩
  known : ∀ fd mask, r.interest fd = some mask → ∃ k, r.fdToSid fd = some k

def Reactor.SteadyBut (r : Reactor) (k : Nat) : Prop :=
  ∀ l session, r.sessions l = some session → l ≠ k →
    r.interest session.fd = some ⟨true, !session.outbuf.isEmpty⟩

def Reactor.Steady (r : Reactor) : Prop :=
  ∀ k session, r.sessions k = some session →
    r.interest session.fd = some ⟨true, !session.outbuf.isEmpty⟩

section Reactors

variable {r : Reactor} {k l : Nat} {session other : Session}

theorem Reactor.Watched.steady (watched : r.Watched)
    (idle : ∀ k, r.stack.head? ≠ some (.writeLoop k)) : r.Steady :=
  fun k session found => watched.settled k session found (idle k)

theorem Reactor.Watched.steadyBut (watched : r.Watched) {task : Task} {rest : List Task}
    (top : r.stack = task :: rest) (own : ∀ l, task = .writeLoop l → l = k) : r.SteadyBut k := by
  intro l session found other
  refine watched.settled l session found ?_
  rw [top]
  intro same
  exact other (own l (Option.some.inj same))

theorem Reactor.Steady.but (steady : r.Steady) (k : Nat) : r.SteadyBut k :=
  fun l session found _ => steady l session found

theorem Reactor.Steady.watched (steady : r.Steady)
    (known : ∀ fd mask, r.interest fd = some mask → ∃ k, r.fdToSid fd = some k)
    (stack : List Task) : ({ r with stack := stack } : Reactor).Watched where
  armed := fun k session found => ⟨_, steady k session found⟩
  settled := fun k session found _ => steady k session found
  known := known

theorem Reactor.SteadyBut.setSession (steady : r.SteadyBut k) (next : Session) :
    ({ r with sessions := Function.update r.sessions k (some next) } : Reactor).SteadyBut k := by
  intro l here found apart
  dsimp only at found
  rw [Function.update_of_ne apart] at found
  exact steady l here found apart

theorem Reactor.SteadyBut.finish (steady : r.SteadyBut k) (found : r.sessions k = some session)
    (exact : r.interest session.fd = some ⟨true, !session.outbuf.isEmpty⟩) : r.Steady := by
  intro l here present
  by_cases same : l = k
  · subst same
    rw [found] at present
    rwa [← Option.some.inj present]
  · exact steady l here present same

theorem Reactor.SteadyBut.setInterest (steady : r.SteadyBut k) {fd : Int}
    (apart : ∀ l other, r.sessions l = some other → l ≠ k → other.fd ≠ fd)
    (found : r.sessions k = some session) (here : session.fd = fd) :
    ({ r with
        interest := Function.update r.interest fd
          (some ⟨true, !session.outbuf.isEmpty⟩) } : Reactor).Steady := by
  subst here
  refine SteadyBut.finish (k := k) ?_ found (Function.update_self ..)
  intro l other present elsewhere
  dsimp only at present ⊢
  rw [Function.update_of_ne (apart l other present elsewhere)]
  exact steady l other present elsewhere

theorem Reactor.SteadyBut.close (steady : r.SteadyBut k) (inverse : r.Inverse)
    (found : r.sessions k = some session) :
    ({ r with
        fdToSid := Function.update r.fdToSid session.fd none
        interest := Function.update r.interest session.fd none
        sessions := Function.update r.sessions k none } : Reactor).Steady := by
  intro l here present
  dsimp only at present ⊢
  rw [Function.update_apply] at present
  split at present
  · cases present
  · rename_i apart
    have fd : here.fd ≠ session.fd := fun same => apart (inverse.same_fd found present same)
    rw [Function.update_of_ne fd]
    exact steady l here present apart

end Reactors

section Turns

variable {cfg : HubConfig} {g : Registry} {i : Nat} {pl mid post : PlaneState} {task : Task}
  {calls rest : List Task} {events : List Event}

theorem updateInterest_registered {fd : Int} {mask : Interest} (wantRead wantWrite : Bool)
    (found : (pl.reactor i).interest fd = some mask) :
    (pl.updateInterest i fd wantRead wantWrite).reactor i =
      { pl.reactor i with
        interest := Function.update (pl.reactor i).interest fd (some ⟨wantRead, wantWrite⟩) } := by
  simp only [PlaneState.updateInterest, found, PlaneState.setReactor, Function.update_self]

theorem known_setInterest {r : Reactor} {fd : Int} {old : Interest} (new : Interest)
    (known : ∀ fd mask, r.interest fd = some mask → ∃ k, r.fdToSid fd = some k)
    (found : r.interest fd = some old) (g : Int) (mask : Interest)
    (here : Function.update r.interest fd (some new) g = some mask) : ∃ k, r.fdToSid g = some k := by
  rw [Function.update_apply] at here
  split at here
  · rename_i same
    subst same
    exact known g old found
  · exact known g mask here

theorem setStack_reactor (i : Nat) (stack : List Task) (pl : PlaneState) :
    (pl.setStack i stack).reactor i = { pl.reactor i with stack := stack } :=
  Function.update_self ..

theorem Reactor.Watched.writing {r : Reactor} {k : Nat} {session next : Session}
    (watched : r.Watched) (found : r.sessions k = some session) (fd : next.fd = session.fd)
    (top : r.stack = .writeLoop k :: rest) :
    ({ r with
        sessions := Function.update r.sessions k (some next)
        stack := .writeLoop k :: rest } : Reactor).Watched where
  armed := by
    intro l here present
    dsimp only at present ⊢
    rw [Function.update_apply] at present
    split at present
    · obtain rfl := Option.some.inj present
      rw [fd]
      exact watched.armed k session found
    · exact watched.armed l here present
  settled := by
    intro l here present other
    have apart : l ≠ k := by
      intro same
      subst same
      exact other rfl
    exact (watched.steadyBut top fun _ => (Task.writeLoop.inj · |>.symm)).setSession next l here
      present apart
  known := watched.known

theorem Turn.watched (turn : Turn i pl task mid calls) (agrees : Agrees g pl.core)
    (top : (pl.reactor i).stack = task :: rest) (watched : (pl.reactor i).Watched) :
    ((mid.setStack i (calls ++ rest)).reactor i).Watched := by
  have inverse := agrees.inverse i
  have apart : ∀ {k session}, (pl.reactor i).sessions k = some session →
      ∀ l other, (pl.reactor i).sessions l = some other → l ≠ k → other.fd ≠ session.fd :=
    fun found l other present elsewhere same => elsewhere (inverse.same_fd found present same)
  have own : ∀ {k : Nat} l, Task.writeLoop k = .writeLoop l → l = k :=
    fun l same => (Task.writeLoop.inj same).symm
  have steady : (∀ k, task ≠ .writeLoop k) → (pl.reactor i).Steady := by
    intro idle
    refine watched.steady fun k same => ?_
    rw [top] at same
    exact idle k (Option.some.inj same)
  rw [setStack_reactor]
  cases turn with
  | resumed same resumes =>
      rw [same.reactor]
      refine (steady ?_).watched watched.known _
      cases resumes <;> exact nofun
  | woken | strayReadable | strayWritable | readable | writable | allRegistered =>
      exact (steady nofun).watched watched.known _
  | @reads k session next task calls mid found face writes reads =>
      have before := steady (by cases reads <;> exact nofun)
      rw [writes.reactor, Function.update_self]
      refine (((before.but k).setSession next).finish (Function.update_self ..) ?_).watched
        watched.known _
      rw [face.fd, face.outbuf]
      exact before k session found
  | @sends k session next task mid data found face writes some caller =>
      obtain ⟨write, armed⟩ := watched.armed k session found
      let longer : Session := { next with outbuf := session.outbuf ++ data }
      have interest : (mid.reactor i).interest session.fd = .some ⟨true, write⟩ := by
        rw [writes.reactor, Function.update_self]
        exact armed
      -- something was appended, so write interest is what the buffer calls for
      have full : (!longer.outbuf.isEmpty) = true := by
        cases data with
        | nil => cases some
        | cons byte more => simp [longer]
      have before := steady (by rcases caller with rfl | rfl <;> exact nofun)
      have others : ∀ l other,
          Function.update (pl.reactor i).sessions k (.some longer) l = .some other →
            l ≠ k → other.fd ≠ session.fd := by
        intro l other present elsewhere
        rw [Function.update_of_ne elsewhere] at present
        exact apart found l other present elsewhere
      have sent := ((before.but k).setSession longer).setInterest others
        (Function.update_self ..) face.fd
      rw [full] at sent
      rw [updateInterest_registered true true interest, writes.reactor, Function.update_self]
      exact sent.watched (known_setInterest _ watched.known armed) _
  -- inside the write loop the interest may lag behind the buffer
  | wrote found writes =>
      rw [writes.reactor, Function.update_self]
      exact watched.writing found rfl top
  | @stopsWriting k session found =>
      obtain ⟨write, armed⟩ := watched.armed k session found
      rw [updateInterest_registered true _ armed]
      exact ((watched.steadyBut top own).setInterest (apart found) found rfl).watched
        (known_setInterest _ watched.known armed) _
  | @closes k session task calls mid found closes ends =>
      have before : (pl.reactor i).SteadyBut k := by
        refine watched.steadyBut top fun l same => ?_
        cases ends <;> cases same
        rfl
      rw [closes.reactor, Function.update_self]
      refine (before.close inverse found).watched ?_ _
      intro fd mask here
      dsimp only at here ⊢
      rw [Function.update_apply] at here
      split at here
      · cases here
      · rename_i other
        rw [Function.update_of_ne other]
        exact watched.known fd mask here
  | @registered conn left queue =>
      have registers := agrees.registers queue
      have before := steady nofun
      rw [registers.reactor]
      refine Reactor.Steady.watched ?_ ?_ _
      · refine Reactor.SteadyBut.finish (k := conn.sid) ?_ (Function.update_self ..)
          (Function.update_self ..)
        intro l other present elsewhere
        dsimp only at present ⊢
        rw [Function.update_of_ne elsewhere] at present
        have fd : other.fd ≠ conn.fd := by
          intro same
          have home := inverse.home l other present
          rw [same, registers.newFd] at home
          cases home
        rw [Function.update_of_ne fd]
        exact before l other present
      · intro fd mask here
        dsimp only at here ⊢
        by_cases same : fd = conn.fd
        · subst same
          exact ⟨conn.sid, Function.update_self ..⟩
        · rw [Function.update_of_ne same] at here ⊢
          exact watched.known fd mask here

theorem Turn.writing_on_top (turn : Turn i pl task mid calls) (k : Nat) :
    .writeLoop k ∉ calls.tail := by
  cases turn with
  | resumed same resumes =>
      cases resumes with
      | dispatched event later =>
          intro member
          rcases List.mem_append.mp (List.mem_of_mem_tail member) with handler | below
          · rcases PollEvent.mem_calls handler with same | same <;> cases same
          · cases List.mem_singleton.mp below
      | _ => simp
  | reads found face writes reads => cases reads <;> simp
  | sends found face writes some caller => rcases caller with rfl | rfl <;> simp
  | closes found closes ends => cases ends <;> simp
  | _ => simp

end Turns

section Runs

variable {cfg : HubConfig} {wakeFd : Plane → Nat → Int}
  {taken : List (Taken HubServer Action Entry)} {h : HubServer} {p : Plane}

theorem hubRun_watched (run : HubRun cfg wakeFd taken h) (p : Plane) (i : Nat) :
    ((h.plane p).reactor i).Watched ∧ ∀ k, .writeLoop k ∉ ((h.plane p).reactor i).stack.tail := by
  refine run.invariant (fun _ h => ((h.plane p).reactor i).Watched ∧
    ∀ k, .writeLoop k ∉ ((h.plane p).reactor i).stack.tail) ?_ ?_
  · exact ⟨⟨nofun, nofun, nofun⟩, fun k => List.not_mem_nil⟩
  · intro past pre act post events before known step
    have agrees := (hubRun_follows before p).2
    rcases (hubStep_plane p step).reactor agrees i with same | ⟨task, mid, calls, rest, turn, top, next⟩
    · rwa [same]
    · obtain ⟨watched, onTop⟩ := known
      rw [next]
      refine ⟨turn.watched agrees top watched, fun k nested => ?_⟩
      rw [setStack_reactor] at nested
      have below : .writeLoop k ∉ rest := by
        have := onTop k
        rwa [top] at this
      cases calls with
      | nil => exact below (List.mem_of_mem_tail nested)
      | cons call more =>
          rcases List.mem_append.mp nested with called | under
          · exact turn.writing_on_top k called
          · exact below under

/-- Everything that `SendBytes` was given for an open session is what the socket took and
what is left in `outbuf`; and whenever the session is not inside the loop of
`HandleWritable`, which no call re-enters, write interest is on exactly while output
waits, and read interest is on. -/
theorem output_is_kept_and_awaited (run : HubRun cfg wakeFd taken h) (p : Plane) (i k : Nat)
    (session : Session) (found : ((h.plane p).reactor i).sessions k = some session) :
    appendedBytes k (onPlane p (trace taken)) =
        writtenBytes k (onPlane p (trace taken)) ++ session.outbuf ∧
      .writeLoop k ∉ ((h.plane p).reactor i).stack.tail ∧
      (((h.plane p).reactor i).stack.head? ≠ some (.writeLoop k) →
        ((h.plane p).reactor i).interest session.fd = some ⟨true, !session.outbuf.isEmpty⟩) := by
  obtain ⟨legal, agrees⟩ := hubRun_follows run p
  obtain ⟨watched, onTop⟩ := hubRun_watched run p i
  refine ⟨?_, onTop k, watched.settled k session found⟩
  have live := agrees.live i k session.key (by rw [core_keys, found]; rfl)
  have kept := stream_kept legal k
  unfold after at kept
  rw [live] at kept
  exact kept

/-- The socket takes three bytes of an answer and then refuses more. -/
theorem output_is_kept_and_awaited_blocked :
    ∃ taken h session, HubRun (smallConfig 4) smallWakeFd taken h ∧
      ((h.plane .kForward).reactor 0).sessions 1 = some session ∧
      writtenBytes 1 (onPlane .kForward (trace taken)) = (ackFrame .kAuthAck 7).take 3 ∧
      session.outbuf = (ackFrame .kAuthAck 7).drop 3 ∧
      appendedBytes 1 (onPlane .kForward (trace taken)) =
        writtenBytes 1 (onPlane .kForward (trace taken)) ++ session.outbuf ∧
      ((h.plane .kForward).reactor 0).interest session.fd = some ⟨true, true⟩ := by
  obtain ⟨taken, h, run, _, seen⟩ := small_run 4 (fun _ => true)
    (connecting .kForward 0 smallWakeFd 5 ++
      [.poll [⟨5, true, false⟩], .run, .run, .recv (.data (encodeAuthFrame 1 [] [] 7)), .run, .run,
        .send (.sent 3), .send .wouldBlock].map (Action.reactor .kForward 0))
    (fun x =>
      ((x.1.plane .kForward).reactor 0).stack.head? == some (.popLoop 1) &&
      writtenBytes 1 (onPlane .kForward x.2) == (ackFrame .kAuthAck 7).take 3 &&
      (((x.1.plane .kForward).reactor 0).sessions 1).any
        fun session => session.outbuf == (ackFrame .kAuthAck 7).drop 3)
    (by decide +kernel)
  simp only [Bool.and_eq_true, beq_iff_eq, Option.any_eq_true] at seen
  obtain ⟨⟨top, written⟩, session, found, left⟩ := seen
  obtain ⟨kept, _, awaited⟩ := output_is_kept_and_awaited run .kForward 0 1 session found
  have waiting := awaited (by rw [top]; exact nofun)
  have some : (!session.outbuf.isEmpty) = true := by
    rw [left]
    decide
  exact ⟨taken, h, session, run, found, written, left, kept, some ▸ waiting⟩

end Runs

end HiImCore.Hub
