import HiImCore.Hub.Interest

/-! The events that one poll of a reactor reports, handled one after the other while
connections are closed and their descriptors are used again. -/

namespace HiImCore.Hub

open Transition

section Batches

variable (wake : Int) (polled : Int → Option Nat) (r : Reactor)

def Reactor.Unmoved (fd : Int) : Prop := ∀ k, r.fdToSid fd = some k → polled fd = some k

def Reactor.Stays (fd : Int) : Prop := ∃ k, r.fdToSid fd = some k ∧ polled fd = some k

def Task.ServesEvent (later : List PollEvent) : Task → Prop
  | .handleReadable fd =>
      fd ≠ wake ∧ fd ∉ later.map PollEvent.fd ∧ r.Unmoved polled fd
  | .handleWritable fd => fd ∉ later.map PollEvent.fd ∧ r.Unmoved polled fd
  | .recvLoop k | .popLoop k | .pushInbound k _ _ | .writeLoop k =>
      ∀ session, r.sessions k = some session →
        session.fd ∉ later.map PollEvent.fd ∧ r.Unmoved polled session.fd
  | _ => False

structure Reactor.Awaits (later : List PollEvent) : Prop where
  once : (later.map PollEvent.fd).Nodup
  unmoved : ∀ fd ∈ later.map PollEvent.fd, r.Unmoved polled fd
  stays : wake ∈ later.map PollEvent.fd → ∀ fd ∈ later.map PollEvent.fd, fd ≠ wake →
    r.Stays polled fd

structure Reactor.Registering (later : List PollEvent) : Prop where
  once : (later.map PollEvent.fd).Nodup
  woken : wake ∉ later.map PollEvent.fd
  stays : ∀ fd ∈ later.map PollEvent.fd, r.Stays polled fd

def Task.outside : Task → Bool
  | .poll | .drainSendQueue | .handleWritable _ | .writeLoop _ | .closeAll => true
  | _ => false

def Task.writes : Task → Bool
  | .handleWritable _ | .writeLoop _ => true
  | _ => false

inductive Reactor.InBatch : List Task → Prop
  | idle {stack : List Task} (outside : ∀ t ∈ stack, t.outside = true) : InBatch stack
  | event {inner below : List Task} {later : List PollEvent}
      (serves : ∀ t ∈ inner, t.ServesEvent wake polled r later) (awaits : r.Awaits wake polled later)
      (outside : ∀ t ∈ below, t.outside = true) : InBatch (inner ++ .events later :: below)
  | wakeUp {writing below : List Task} {later : List PollEvent}
      (last : ∀ t ∈ writing, t = .handleWritable wake) (registering : r.Registering wake polled later)
      (outside : ∀ t ∈ below, t.outside = true) :
      InBatch (.handleReadable wake :: (writing ++ .events later :: below))
  | newConnections {writing below : List Task} {later : List PollEvent}
      (last : ∀ t ∈ writing, t = .handleWritable wake) (registering : r.Registering wake polled later)
      (outside : ∀ t ∈ below, t.outside = true) :
      InBatch (.drainNewConnections :: .drainSendQueue :: (writing ++ .events later :: below))
  | sends {writers writing below : List Task} {later : List PollEvent}
      (writes : ∀ t ∈ writers, t.writes = true) (last : ∀ t ∈ writing, t = .handleWritable wake)
      (woken : wake ∉ later.map PollEvent.fd) (awaits : r.Awaits wake polled later)
      (outside : ∀ t ∈ below, t.outside = true) :
      InBatch (writers ++ .drainSendQueue :: (writing ++ .events later :: below))

end Batches

section Narrowing

variable {wake : Int} {polled : Int → Option Nat} {r next : Reactor} {later : List PollEvent}
  {task : Task}

structure Reactor.Narrows (r next : Reactor) : Prop where
  fdToSid : ∀ fd k, next.fdToSid fd = some k → r.fdToSid fd = some k
  sessions : ∀ k session, next.sessions k = some session →
    ∃ before, r.sessions k = some before ∧ session.fd = before.fd

theorem Reactor.Unmoved.narrows {fd : Int} (unmoved : r.Unmoved polled fd) (narrows : r.Narrows next) :
    next.Unmoved polled fd :=
  fun k found => unmoved k (narrows.fdToSid fd k found)

theorem Reactor.Stays.unmoved {fd : Int} (stays : r.Stays polled fd) : r.Unmoved polled fd := by
  obtain ⟨k, here, before⟩ := stays
  intro l found
  rw [here] at found
  rwa [← Option.some.inj found]

theorem Task.ServesEvent.narrows (serves : task.ServesEvent wake polled r later)
    (narrows : r.Narrows next) : task.ServesEvent wake polled next later := by
  have session : ∀ {k}, (∀ session, r.sessions k = some session →
      session.fd ∉ later.map PollEvent.fd ∧ r.Unmoved polled session.fd) →
      ∀ session, next.sessions k = some session →
        session.fd ∉ later.map PollEvent.fd ∧ next.Unmoved polled session.fd := by
    intro k known session found
    obtain ⟨before, was, same⟩ := narrows.sessions k session found
    rw [same]
    exact (known before was).imp_right (·.narrows narrows)
  cases task with
  | handleReadable fd => exact ⟨serves.1, serves.2.1, serves.2.2.narrows narrows⟩
  | handleWritable fd => exact serves.imp_right (·.narrows narrows)
  | recvLoop k | popLoop k | pushInbound k | writeLoop k => exact session serves
  | _ => cases serves

theorem Reactor.Awaits.narrows (awaits : r.Awaits wake polled later) (narrows : r.Narrows next)
    (same : wake ∈ later.map PollEvent.fd →
      ∀ fd ∈ later.map PollEvent.fd, next.fdToSid fd = r.fdToSid fd) :
    next.Awaits wake polled later where
  once := awaits.once
  unmoved := fun fd member => (awaits.unmoved fd member).narrows narrows
  stays := by
    intro wakes fd member other
    obtain ⟨k, here, polled⟩ := awaits.stays wakes fd member other
    exact ⟨k, (same wakes fd member).trans here, polled⟩

theorem Reactor.Registering.awaits (registering : r.Registering wake polled later) :
    r.Awaits wake polled later where
  once := registering.once
  unmoved := fun fd member => (registering.stays fd member).unmoved
  stays := fun wakes => absurd wakes registering.woken

theorem Reactor.InBatch.setStack {stack : List Task} (inBatch : r.InBatch wake polled stack)
    (other : List Task) : ({ r with stack := other } : Reactor).InBatch wake polled stack := by
  cases inBatch with
  | idle outside => exact .idle outside
  | event serves awaits outside =>
      exact .event serves ⟨awaits.once, awaits.unmoved, awaits.stays⟩ outside
  | wakeUp last registering outside =>
      exact .wakeUp last ⟨registering.once, registering.woken, registering.stays⟩ outside
  | newConnections last registering outside =>
      exact .newConnections last ⟨registering.once, registering.woken, registering.stays⟩ outside
  | sends writes last woken awaits outside =>
      exact .sends writes last woken ⟨awaits.once, awaits.unmoved, awaits.stays⟩ outside

end Narrowing

section Turns

variable {g : Registry} {i : Nat} {pl mid : PlaneState} {task : Task} {calls : List Task}
  {polled : Int → Option Nat} {later : List PollEvent}

theorem Turn.narrows (turn : Turn i pl task mid calls) (agrees : Agrees g pl.core)
    (other : task ≠ .drainNewConnections) : (pl.reactor i).Narrows (mid.reactor i) := by
  rcases turn.maps agrees with keeps | ⟨k, session, found, closes, _⟩ | ⟨conn, left, _, same, _⟩
  · refine ⟨fun fd k mapped => ?_, keeps.sessions⟩
    rwa [keeps.fdToSid] at mapped
  · rw [closes.reactor, Function.update_self]
    refine ⟨fun fd l mapped => ?_, fun l there present => ?_⟩
    · dsimp only at mapped
      rw [Function.update_apply] at mapped
      split at mapped
      · cases mapped
      · exact mapped
    · dsimp only at present
      rw [Function.update_apply] at present
      split at present
      · cases present
      · exact ⟨there, present, rfl⟩
  · exact absurd same other

theorem Turn.spares (turn : Turn i pl task mid calls) (agrees : Agrees g pl.core) {wake : Int}
    (serves : task.ServesEvent wake polled (pl.reactor i) later) (fd : Int)
    (member : fd ∈ later.map PollEvent.fd) :
    (mid.reactor i).fdToSid fd = (pl.reactor i).fdToSid fd := by
  rcases turn.maps agrees with keeps | ⟨k, session, found, closes, ends⟩ | ⟨conn, left, _, same, _⟩
  · rw [keeps.fdToSid]
  · have apart : session.fd ∉ later.map PollEvent.fd := by
      cases ends with
      | shutDown => cases serves
      | _ => exact (serves session found).1
    have other : fd ≠ session.fd := by
      rintro rfl
      exact apart member
    rw [closes.reactor, Function.update_self]
    exact Function.update_of_ne other ..
  · subst same
    cases serves

theorem Turn.servesEvent (turn : Turn i pl task mid calls) (agrees : Agrees g pl.core)
    (serves : task.ServesEvent (pl.wakeFd i) polled (pl.reactor i) later) :
    ∀ t ∈ calls, t.ServesEvent (pl.wakeFd i) polled (mid.reactor i) later := by
  have other : task ≠ .drainNewConnections := by
    rintro rfl
    cases serves
  have narrows := turn.narrows agrees other
  -- it is enough to look at the sessions before the step
  suffices before : ∀ t ∈ calls, t.ServesEvent (pl.wakeFd i) polled (pl.reactor i) later from
    fun t member => (before t member).narrows narrows
  have mapped : ∀ {fd k}, (pl.reactor i).fdToSid fd = some k →
      fd ∉ later.map PollEvent.fd ∧ (pl.reactor i).Unmoved polled fd →
      ∀ session, (pl.reactor i).sessions k = some session →
        session.fd ∉ later.map PollEvent.fd ∧ (pl.reactor i).Unmoved polled session.fd := by
    intro fd k found known session present
    obtain ⟨there, here, same⟩ := (agrees.inverse i).back fd k found
    rw [present] at here
    rwa [Option.some.inj here, same]
  cases turn with
  | resumed same resumes =>
      cases resumes with
      | waited | pushed => exact nofun
      | retried => exact List.forall_mem_singleton.mpr serves
      | _ => cases serves
  | woken => exact absurd rfl serves.1
  | strayReadable | strayWritable | stopsWriting => exact nofun
  | readable away found => exact List.forall_mem_singleton.mpr (mapped found serves.2)
  | writable found => exact List.forall_mem_singleton.mpr (mapped found serves)
  | reads found face writes reads =>
      cases reads with
      | refused => exact nofun
      | received => exact List.forall_mem_cons.mpr ⟨serves, List.forall_mem_singleton.mpr serves⟩
      | _ => exact List.forall_mem_singleton.mpr serves
  | sends found face writes some caller =>
      rcases caller with rfl | rfl
      · exact List.forall_mem_cons.mpr ⟨serves _ found, List.forall_mem_singleton.mpr serves⟩
      · cases serves
  | wrote => exact List.forall_mem_singleton.mpr serves
  | closes found closes ends =>
      cases ends with
      | expelled => exact List.forall_mem_singleton.mpr serves
      | shutDown => cases serves
      | _ => exact nofun
  | registered | allRegistered => cases serves

theorem Turn.outside (turn : Turn i pl task mid calls) (outside : task.outside = true)
    (other : task ≠ .poll) : ∀ t ∈ calls, t.outside = true := by
  cases turn with
  | resumed same resumes =>
      cases resumes with
      | polled | stopped => exact absurd rfl other
      | dropped | nobody | allSent => simp [Task.outside]
      | _ => cases outside
  | reads found face writes reads => cases reads <;> cases outside
  | sends found face writes some caller =>
      rcases caller with rfl | rfl
      · cases outside
      · simp [Task.outside]
  | closes found closes ends =>
      cases ends with
      | broken | shutDown => simp [Task.outside]
      | _ => cases outside
  | strayWritable | writable | wrote | stopsWriting => simp [Task.outside]
  | _ => cases outside

theorem Turn.writes (turn : Turn i pl task mid calls) (writes : task.writes = true) :
    ∀ t ∈ calls, t.writes = true := by
  cases turn with
  | resumed same resumes => cases resumes <;> cases writes
  | reads found face changes reads => cases reads <;> cases writes
  | sends found face changes some caller => rcases caller with rfl | rfl <;> cases writes
  | closes found closes ends =>
      cases ends with
      | broken => simp
      | _ => cases writes
  | strayWritable | writable | wrote | stopsWriting => simp [Task.writes]
  | _ => cases writes

theorem dispatched_inBatch {r : Reactor} {wake : Int} {event : PollEvent} {below : List Task}
    (awaits : r.Awaits wake polled (event :: later))
    (outside : ∀ t ∈ below, t.outside = true) :
    r.InBatch wake polled (event.calls ++ [.events later] ++ below) := by
  have once := List.nodup_cons.mp awaits.once
  have rest : r.Awaits wake polled later :=
    { once := once.2
      unmoved := fun fd member => awaits.unmoved fd (List.mem_cons_of_mem _ member)
      stays := fun wakes fd member =>
        awaits.stays (List.mem_cons_of_mem _ wakes) fd (List.mem_cons_of_mem _ member) }
  have mine : r.Unmoved polled event.fd := awaits.unmoved event.fd List.mem_cons_self
  rw [List.append_assoc]
  by_cases wakes : event.fd = wake ∧ event.readable = true
  · obtain ⟨same, readable⟩ := wakes
    have registering : r.Registering wake polled later := by
      refine ⟨once.2, same ▸ once.1, fun fd member => ?_⟩
      refine awaits.stays ?_ fd (List.mem_cons_of_mem _ member) ?_
      · rw [← same]
        exact List.mem_cons_self
      · rintro rfl
        exact once.1 (same ▸ member)
    rw [PollEvent.calls, readable, if_pos rfl, List.append_assoc, same]
    refine .wakeUp ?_ registering outside
    intro t member
    split at member
    · exact List.mem_singleton.mp member
    · cases member
  · refine .event (fun t member => ?_) rest outside
    have away : t = .handleReadable event.fd → event.fd ≠ wake := by
      rintro rfl same
      refine wakes ⟨same, ?_⟩
      by_contra silent
      simp [PollEvent.calls, silent] at member
    rcases PollEvent.mem_calls member with rfl | rfl
    · exact ⟨away rfl, once.1, mine⟩
    · exact ⟨once.1, mine⟩

theorem Turn.of_wakeUp (turn : Turn i pl (.handleReadable (pl.wakeFd i)) mid calls) :
    mid.reactor = pl.reactor ∧ calls = [.drainNewConnections, .drainSendQueue] := by
  cases turn with
  | resumed same resumes => cases resumes
  | woken => exact ⟨rfl, rfl⟩
  | strayReadable other | readable other => exact absurd rfl other
  | reads found face writes reads => cases reads
  | sends found face writes some caller => rcases caller with same | same <;> cases same
  | closes found closes ends => cases ends

theorem Turn.of_drainNew (turn : Turn i pl .drainNewConnections mid calls)
    (agrees : Agrees g pl.core) :
    (∃ conn left, Registers i conn left pl mid ∧ calls = [.drainNewConnections]) ∨
      mid = pl ∧ calls = [] := by
  cases turn with
  | resumed same resumes => cases resumes
  | reads found face writes reads => cases reads
  | sends found face writes some caller => rcases caller with same | same <;> cases same
  | closes found closes ends => cases ends
  | registered queue => exact .inl ⟨_, _, agrees.registers queue, rfl⟩
  | allRegistered => exact .inr ⟨rfl, rfl⟩

theorem Turn.of_drainSend (turn : Turn i pl .drainSendQueue mid calls) :
    calls = [] ∨ ∃ writers, (∀ t ∈ writers, t.writes = true) ∧
      calls = writers ++ [.drainSendQueue] := by
  cases turn with
  | resumed same resumes =>
      cases resumes with
      | dropped => exact .inr ⟨[], nofun, rfl⟩
      | allSent => exact .inl rfl
  | reads found face writes reads => cases reads
  | @sends k session => exact .inr ⟨[.handleWritable session.fd], by simp [Task.writes], rfl⟩
  | closes found closes ends => cases ends

theorem Registers.registering {wake : Int} {conn : NewConnection} {left : List NewConnection}
    (registers : Registers i conn left pl mid)
    (registering : (pl.reactor i).Registering wake polled later) :
    (mid.reactor i).Registering wake polled later := by
  refine ⟨registering.once, registering.woken, fun fd member => ?_⟩
  obtain ⟨k, here, polled⟩ := registering.stays fd member
  refine ⟨k, ?_, polled⟩
  have other : fd ≠ conn.fd := by
    rintro rfl
    rw [registers.newFd] at here
    cases here
  rw [registers.reactor]
  exact (Function.update_of_ne other ..).trans here

variable {rest : List Task}

theorem Reactor.InBatch.turn
    (inBatch : (pl.reactor i).InBatch (pl.wakeFd i) polled (task :: rest))
    (turn : Turn i pl task mid calls) (agrees : Agrees g pl.core)
    (unmapped : (pl.reactor i).fdToSid (pl.wakeFd i) = none) (other : task ≠ .poll) :
    (mid.reactor i).InBatch (pl.wakeFd i) polled (calls ++ rest) := by
  generalize whole : task :: rest = stack at inBatch
  cases inBatch with
  | idle outside =>
      subst whole
      obtain ⟨top, below⟩ := List.forall_mem_cons.mp outside
      refine .idle fun t member => ?_
      rcases List.mem_append.mp member with called | under
      · exact turn.outside top other t called
      · exact below t under
  | @event inner below later serves awaits outside =>
      cases inner with
      | nil =>
          obtain ⟨rfl, rfl⟩ := List.cons.inj whole
          cases turn with
          | resumed same resumes =>
              rw [same.reactor]
              cases resumes with
              | finished => exact .idle outside
              | dispatched event later => exact dispatched_inBatch awaits outside
          | reads found face writes reads => cases reads
          | sends found face writes some caller => rcases caller with same | same <;> cases same
          | closes found closes ends => cases ends
      | cons t inner =>
          rw [List.cons_append] at whole
          obtain ⟨rfl, rfl⟩ := List.cons.inj whole
          obtain ⟨top, inside⟩ := List.forall_mem_cons.mp serves
          have away : task ≠ .drainNewConnections := by
            rintro rfl
            cases top
          have narrows := turn.narrows agrees away
          rw [← List.append_assoc]
          refine .event (fun t member => ?_) (awaits.narrows narrows fun _ => turn.spares agrees top)
            outside
          rcases List.mem_append.mp member with called | under
          · exact turn.servesEvent agrees top t called
          · exact (inside t under).narrows narrows
  | @wakeUp writing below later last registering outside =>
      obtain ⟨rfl, rfl⟩ := List.cons.inj whole
      obtain ⟨same, rfl⟩ := turn.of_wakeUp
      rw [same]
      exact .newConnections last registering outside
  | @newConnections writing below later last registering outside =>
      obtain ⟨rfl, rfl⟩ := List.cons.inj whole
      rcases turn.of_drainNew agrees with ⟨conn, left, registers, rfl⟩ | ⟨rfl, rfl⟩
      · exact .newConnections last (registers.registering registering) outside
      · have drained : (mid.reactor i).InBatch (mid.wakeFd i) polled
            ([] ++ .drainSendQueue :: (writing ++ .events later :: below)) :=
          .sends nofun last registering.woken registering.awaits outside
        exact drained
  | @sends writers writing below later writes last woken awaits outside =>
      have still : ∀ {next : Reactor}, (pl.reactor i).Narrows next →
          next.Awaits (pl.wakeFd i) polled later :=
        fun narrows => awaits.narrows narrows fun wakes => absurd wakes woken
      cases writers with
      | nil =>
          obtain ⟨rfl, rfl⟩ := List.cons.inj whole
          have narrows := turn.narrows agrees nofun
          rcases turn.of_drainSend with rfl | ⟨writers, writes, rfl⟩
          · refine .event (fun t member => ?_) (still narrows) outside
            rw [last t member]
            -- the wake-up's descriptor belongs to no session
            refine ⟨woken, fun k found => ?_⟩
            have mapped := narrows.fdToSid _ k found
            rw [unmapped] at mapped
            cases mapped
          · rw [List.append_assoc]
            exact .sends writes last woken (still narrows) outside
      | cons t writers =>
          rw [List.cons_append] at whole
          obtain ⟨rfl, rfl⟩ := List.cons.inj whole
          obtain ⟨top, inside⟩ := List.forall_mem_cons.mp writes
          have away : task ≠ .drainNewConnections := by
            rintro rfl
            cases top
          rw [← List.append_assoc]
          refine .sends (fun t member => ?_) last woken (still (turn.narrows agrees away)) outside
          rcases List.mem_append.mp member with called | under
          · exact turn.writes top t called
          · exact inside t under

end Turns

section Handlers

variable {wake : Int} {polled : Int → Option Nat} {r : Reactor} {fd : Int} {task : Task}
  {rest : List Task}

theorem Reactor.InBatch.top (inBatch : r.InBatch wake polled (task :: rest)) :
    (∀ t ∈ task :: rest, t.outside = true) ∨
      (∃ later, task = .events later ∨ task.ServesEvent wake polled r later) ∨
      (task = .handleReadable wake ∨ task = .drainNewConnections ∨ task = .drainSendQueue) ∨
      (task.writes = true ∧ ∀ later below, rest ≠ .events later :: below) := by
  generalize whole : task :: rest = stack at inBatch
  cases inBatch with
  | idle outside =>
      subst whole
      exact .inl outside
  | @event inner below later serves awaits outside =>
      cases inner with
      | nil => exact .inr (.inl ⟨later, .inl (List.cons.inj whole).1⟩)
      | cons t inner =>
          rw [List.cons_append] at whole
          obtain ⟨rfl, _⟩ := List.cons.inj whole
          exact .inr (.inl ⟨later, .inr (serves _ List.mem_cons_self)⟩)
  | wakeUp => exact .inr (.inr (.inl (.inl (List.cons.inj whole).1)))
  | newConnections => exact .inr (.inr (.inl (.inr (.inl (List.cons.inj whole).1))))
  | @sends writers writing below later writes last woken awaits outside =>
      cases writers with
      | nil => exact .inr (.inr (.inl (.inr (.inr (List.cons.inj whole).1))))
      | cons t writers =>
          rw [List.cons_append] at whole
          obtain ⟨rfl, rfl⟩ := List.cons.inj whole
          obtain ⟨top, inside⟩ := List.forall_mem_cons.mp writes
          refine .inr (.inr (.inr ⟨top, fun later below same => ?_⟩))
          -- below a writing call stands another one, or the drain that made it
          cases writers with
          | nil => cases same
          | cons next writers =>
              rw [List.cons_append] at same
              obtain ⟨rfl, _⟩ := List.cons.inj same
              cases inside _ List.mem_cons_self

theorem Reactor.InBatch.readable (inBatch : r.InBatch wake polled (.handleReadable fd :: rest))
    (other : fd ≠ wake) : r.Unmoved polled fd := by
  rcases inBatch.top with outside | ⟨later, same | serves⟩ | (same | same | same) | ⟨writes, _⟩
  · cases outside _ List.mem_cons_self
  · cases same
  · exact serves.2.2
  · exact absurd (Task.handleReadable.inj same) other
  · cases same
  · cases same
  · cases writes

theorem Reactor.InBatch.writable {later : List PollEvent}
    (inBatch : r.InBatch wake polled (.handleWritable fd :: .events later :: rest)) :
    r.Unmoved polled fd := by
  rcases inBatch.top with outside | ⟨_, same | serves⟩ | (same | same | same) | ⟨_, apart⟩
  · cases outside _ (List.mem_cons_of_mem _ List.mem_cons_self)
  · cases same
  · exact serves.2
  · cases same
  · cases same
  · cases same
  · exact absurd rfl (apart later rest)

theorem Reactor.InBatch.outside (inBatch : r.InBatch wake polled (.poll :: rest)) :
    ∀ t ∈ Task.poll :: rest, t.outside = true := by
  rcases inBatch.top with outside | ⟨_, same | serves⟩ | (same | same | same) | ⟨writes, _⟩
  · exact outside
  · cases same
  · cases serves
  · cases same
  · cases same
  · cases same
  · cases writes

end Handlers

end HiImCore.Hub
