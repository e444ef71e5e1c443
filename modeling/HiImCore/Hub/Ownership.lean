import HiImCore.Hub.PlaneSteps

/-! Who holds a connection: the listener that has accepted it, one connection queue, or one
reactor, whose two session maps are inverse to each other. -/

namespace HiImCore.Hub

open Transition

structure Reactor.Inverse (r : Reactor) : Prop where
  named : ∀ k session, r.sessions k = some session → session.sid = k
  home : ∀ k session, r.sessions k = some session → r.fdToSid session.fd = some k
  back : ∀ fd k, r.fdToSid fd = some k → ∃ session, r.sessions k = some session ∧ session.fd = fd

inductive Holder where
  | listener
  | queue (i : Nat)
  | reactor (i : Nat)
  deriving DecidableEq, Repr

namespace PlaneState

def Holds (pl : PlaneState) (fd : Int) (sid : Nat) : Holder → Prop
  | .listener => pl.listener.held = some ⟨fd, sid⟩
  | .queue i => ⟨fd, sid⟩ ∈ pl.connQueue i
  | .reactor i => (pl.reactor i).fdToSid fd = some sid

theorem Holds.moves {pl mid : PlaneState} {fd : Int} {sid : Nat} {holder : Holder}
    (holds : pl.Holds fd sid holder)
    (listener : pl.listener.held = some ⟨fd, sid⟩ → mid.listener.held = some ⟨fd, sid⟩)
    (queue : ∀ j, ⟨fd, sid⟩ ∈ pl.connQueue j → ⟨fd, sid⟩ ∈ mid.connQueue j)
    (reactor : ∀ j, (pl.reactor j).fdToSid fd = some sid → (mid.reactor j).fdToSid fd = some sid) :
    mid.Holds fd sid holder := by
  cases holder with
  | listener => exact listener holds
  | queue j => exact queue j holds
  | reactor j => exact reactor j holds

def Accounted (pl : PlaneState) : Prop :=
  ∀ fd sid, pl.sockets fd = some sid → ∃ holder, pl.Holds fd sid holder

end PlaneState

section Agreement

variable {g : Registry} {pl : PlaneState} {i : Nat}

theorem Reactor.Inverse.same_fd {r : Reactor} {k l : Nat} {session other : Session}
    (inverse : r.Inverse) (first : r.sessions k = some session)
    (second : r.sessions l = some other) (fd : other.fd = session.fd) : l = k := by
  have home := inverse.home k session first
  have there := inverse.home l other second
  rw [fd, home] at there
  exact (Option.some.inj there).symm

theorem Agrees.inverse (agrees : Agrees g pl.core) (i : Nat) : (pl.reactor i).Inverse where
  named := fun k session found => session_named agrees found
  home := fun k session found => agrees.fdOfKey i k session.key (by rw [core_keys, found]; rfl)
  back := by
    intro fd k found
    obtain ⟨key, present, same⟩ := agrees.keyOfFd i fd k found
    rw [core_keys, Option.map_eq_some_iff] at present
    obtain ⟨session, here, rfl⟩ := present
    exact ⟨session, here, same⟩

theorem Agrees.fresh (agrees : Agrees g pl.core) {conn : NewConnection}
    (member : conn ∈ pl.connQueue i) (j : Nat) :
    (pl.reactor j).fdToSid conn.fd = none ∧ (pl.reactor j).sessions conn.sid = none := by
  obtain ⟨queued, socket⟩ := agrees.queued i conn member
  have unknown : ∀ key, pl.core.keys j conn.sid ≠ some key := by
    intro key present
    have live := agrees.live j conn.sid key present
    rw [queued] at live
    cases live
  constructor
  · cases found : (pl.reactor j).fdToSid conn.fd with
    | none => rfl
    | some k =>
        obtain ⟨key, present, same⟩ := agrees.keyOfFd j conn.fd k found
        have owner := agrees.socket j k key present
        rw [same, socket] at owner
        obtain rfl := Option.some.inj owner
        exact absurd present (unknown key)
  · cases found : (pl.reactor j).sessions conn.sid with
    | none => rfl
    | some session => exact absurd (by rw [core_keys, found]; rfl) (unknown session.key)

def Holder.Says (g : Registry) (sid : Nat) : Holder → Prop
  | .listener => g.conn sid = .accepted
  | .queue i => g.conn sid = .queued i
  | .reactor i => ∃ id, g.conn sid = .live i id

theorem Agrees.holds (agrees : Agrees g pl.core) {fd : Int} {sid : Nat} {holder : Holder}
    (holds : pl.Holds fd sid holder) : holder.Says g sid ∧ pl.sockets fd = some sid := by
  cases holder with
  | listener => exact agrees.held ⟨fd, sid⟩ holds
  | queue i => exact agrees.queued i ⟨fd, sid⟩ holds
  | reactor i =>
      obtain ⟨key, present, rfl⟩ := agrees.keyOfFd i fd sid holds
      exact ⟨⟨_, agrees.live i sid key present⟩, agrees.socket i sid key present⟩

theorem Holder.says_unique {sid : Nat} {first second : Holder} (here : first.Says g sid)
    (there : second.Says g sid) : first = second := by
  have conn : ∀ {c d : Conn}, g.conn sid = c → g.conn sid = d → c = d :=
    fun first second => first.symm.trans second
  cases first <;> cases second
  case listener.listener => rfl
  case queue.queue => rw [Conn.queued.inj (conn here there)]
  case reactor.reactor =>
    obtain ⟨_, here⟩ := here
    obtain ⟨_, there⟩ := there
    rw [(Conn.live.inj (conn here there)).1]
  case reactor.listener | reactor.queue => exact nomatch conn here.choose_spec there
  case listener.reactor | queue.reactor => exact nomatch conn here there.choose_spec
  all_goals exact nomatch conn here there

theorem Agrees.one_fd (agrees : Agrees g pl.core) {first second : Int} {sid : Nat}
    {a b : Holder} (here : pl.Holds first sid a) (there : pl.Holds second sid b) :
    first = second := by
  obtain rfl := Holder.says_unique (agrees.holds here).1 (agrees.holds there).1
  cases a with
  | listener =>
      have same : some _ = some _ := here.symm.trans there
      exact congrArg NewConnection.fd (Option.some.inj same)
  | queue i =>
      have same := List.inj_on_of_nodup_map (agrees.distinct i) here there rfl
      exact congrArg NewConnection.fd same
  | reactor i =>
      obtain ⟨key, present, rfl⟩ := agrees.keyOfFd i first sid here
      obtain ⟨other, again, rfl⟩ := agrees.keyOfFd i second sid there
      rw [present] at again
      rw [Option.some.inj again]

end Agreement

section Turns

variable {cfg : HubConfig} {g : Registry} {i : Nat} {pl mid post : PlaneState} {task : Task}
  {calls : List Task} {events : List Event}

structure KeepsMaps (i : Nat) (pl mid : PlaneState) : Prop where
  fdToSid : (mid.reactor i).fdToSid = (pl.reactor i).fdToSid
  sessions : ∀ k next, (mid.reactor i).sessions k = some next →
    ∃ session, (pl.reactor i).sessions k = some session ∧ next.fd = session.fd
  sockets : mid.sockets = pl.sockets
  connQueue : mid.connQueue = pl.connQueue

theorem KeepsMaps.refl (i : Nat) (pl : PlaneState) : KeepsMaps i pl pl :=
  ⟨rfl, fun _ session found => ⟨session, found, rfl⟩, rfl, rfl⟩

theorem Writes.keepsMaps {k : Nat} {session next : Session}
    (found : (pl.reactor i).sessions k = some session) (writes : Writes i k next pl mid)
    (fd : next.fd = session.fd) : KeepsMaps i pl mid := by
  refine ⟨?_, ?_, writes.sockets, writes.connQueue⟩ <;> rw [writes.reactor, Function.update_self]
  intro l there present
  dsimp only at present
  rw [Function.update_apply] at present
  split at present
  · rename_i same
    subst same
    obtain rfl := Option.some.inj present
    exact ⟨session, found, fd⟩
  · exact ⟨there, present, rfl⟩

theorem KeepsMaps.updateInterest (keeps : KeepsMaps i pl mid) (fd : Int)
    (wantRead wantWrite : Bool) : KeepsMaps i pl (mid.updateInterest i fd wantRead wantWrite) := by
  have same : ((mid.updateInterest i fd wantRead wantWrite).reactor i).fdToSid =
        (mid.reactor i).fdToSid ∧
      ((mid.updateInterest i fd wantRead wantWrite).reactor i).sessions =
        (mid.reactor i).sessions := by
    unfold PlaneState.updateInterest
    split
    · exact ⟨rfl, rfl⟩
    · simp only [PlaneState.setReactor, Function.update_self, and_self]
  refine ⟨same.1.trans keeps.fdToSid, ?_, ?_, ?_⟩
  · rw [same.2]
    exact keeps.sessions
  · rw [updateInterest_sockets, keeps.sockets]
  · rw [updateInterest_connQueue, keeps.connQueue]

structure Registers (i : Nat) (conn : NewConnection) (left : List NewConnection)
    (pl mid : PlaneState) : Prop where
  queue : pl.connQueue i = conn :: left
  newFd : (pl.reactor i).fdToSid conn.fd = none
  newSid : (pl.reactor i).sessions conn.sid = none
  socket : pl.sockets conn.fd = some conn.sid
  reactor : mid.reactor i =
    { pl.reactor i with
      fdToSid := Function.update (pl.reactor i).fdToSid conn.fd (some conn.sid)
      sessions := Function.update (pl.reactor i).sessions conn.sid
        (some { Session.fresh with sid := conn.sid, fd := conn.fd })
      interest := Function.update (pl.reactor i).interest conn.fd (some ⟨true, false⟩) }
  connQueue : mid.connQueue = Function.update pl.connQueue i left
  sockets : mid.sockets = pl.sockets

theorem Agrees.registers (agrees : Agrees g pl.core) {conn : NewConnection}
    {left : List NewConnection} (queue : pl.connQueue i = conn :: left) :
    Registers i conn left pl
      (registerConnection i conn { pl with connQueue := Function.update pl.connQueue i left }) := by
  have front : conn ∈ pl.connQueue i := by
    rw [queue]
    exact List.mem_cons_self
  obtain ⟨newFd, newSid⟩ := agrees.fresh front i
  refine ⟨queue, newFd, newSid, (agrees.queued i conn front).2, ?_, rfl, rfl⟩
  simp only [registerConnection, PlaneState.setReactor, Function.update_self, newSid,
    Option.getD_none]

theorem Turn.maps (turn : Turn i pl task mid calls) (agrees : Agrees g pl.core) :
    KeepsMaps i pl mid ∨
      (∃ k session, (pl.reactor i).sessions k = some session ∧ Closes i k session pl mid ∧
        Ends k task calls) ∨
      ∃ conn left, Registers i conn left pl mid ∧ task = .drainNewConnections ∧
        calls = [.drainNewConnections] := by
  cases turn with
  | resumed same resumes =>
      refine .inl ⟨by rw [same.reactor], ?_, same.sockets, same.connQueue⟩
      rw [same.reactor]
      exact (KeepsMaps.refl i pl).sessions
  | woken => exact .inl ⟨rfl, (KeepsMaps.refl i pl).sessions, rfl, rfl⟩
  | strayReadable | strayWritable | readable | writable | allRegistered => exact .inl (.refl i pl)
  | reads found face writes reads => exact .inl (writes.keepsMaps found face.fd)
  | sends found face writes some caller =>
      exact .inl ((writes.keepsMaps found face.fd).updateInterest ..)
  | wrote found writes => exact .inl (writes.keepsMaps found rfl)
  | stopsWriting found => exact .inl ((KeepsMaps.refl i pl).updateInterest ..)
  | closes found closes ends => exact .inr (.inl ⟨_, _, found, closes, ends⟩)
  | registered queue => exact .inr (.inr ⟨_, _, agrees.registers queue, rfl, rfl⟩)

theorem Turn.accounted (turn : Turn i pl task mid calls) (agrees : Agrees g pl.core)
    (accounted : pl.Accounted) : mid.Accounted := by
  intro fd sid stillOpen
  have listener : pl.listener.held = some ⟨fd, sid⟩ → mid.listener.held = some ⟨fd, sid⟩ :=
    (congrArg Listener.held turn.listener.1).trans
  have reactor : ((pl.reactor i).fdToSid fd = some sid → (mid.reactor i).fdToSid fd = some sid) →
      ∀ j, (pl.reactor j).fdToSid fd = some sid → (mid.reactor j).fdToSid fd = some sid := by
    intro here j holds
    by_cases own : j = i
    · subst own
      exact here holds
    · rwa [(turn.others own).1]
  rcases turn.maps agrees with keeps | ⟨k, session, found, closes, _⟩ | ⟨conn, left, registers, _⟩
  · rw [keeps.sockets] at stillOpen
    obtain ⟨holder, holds⟩ := accounted fd sid stillOpen
    refine ⟨holder, holds.moves listener (fun j member => ?_) (reactor fun here => ?_)⟩
    · rwa [keeps.connQueue]
    · rwa [keeps.fdToSid]
  · rw [closes.sockets, Function.update_apply] at stillOpen
    split at stillOpen
    · cases stillOpen
    · rename_i other
      obtain ⟨holder, holds⟩ := accounted fd sid stillOpen
      refine ⟨holder, holds.moves listener (fun j member => ?_) (reactor fun here => ?_)⟩
      · rwa [closes.connQueue]
      · rw [closes.reactor, Function.update_self]
        exact (Function.update_of_ne other ..).trans here
  · rw [registers.sockets] at stillOpen
    by_cases new : fd = conn.fd
    · subst new
      rw [registers.socket] at stillOpen
      refine ⟨.reactor i, ?_⟩
      rw [PlaneState.Holds, registers.reactor]
      exact (Function.update_self ..).trans stillOpen
    · obtain ⟨holder, holds⟩ := accounted fd sid stillOpen
      refine ⟨holder, holds.moves listener (fun j member => ?_) (reactor fun here => ?_)⟩
      · rw [registers.connQueue]
        by_cases own : j = i
        · subst own
          rw [registers.queue] at member
          rw [Function.update_self]
          exact (List.mem_cons.mp member).resolve_left fun same => new (congrArg NewConnection.fd same)
        · rwa [Function.update_of_ne own]
      · rw [registers.reactor]
        exact (Function.update_of_ne new ..).trans here

theorem setStack_fdToSid (i j : Nat) (stack : List Task) (pl : PlaneState) :
    ((pl.setStack i stack).reactor j).fdToSid = (pl.reactor j).fdToSid := by
  by_cases own : j = i
  · subst own
    simp only [PlaneState.setStack, PlaneState.setReactor, Function.update_self]
  · exact congrArg Reactor.fdToSid (Function.update_of_ne own ..)

theorem PlaneState.Accounted.setStack (accounted : pl.Accounted) (stack : List Task) :
    (pl.setStack i stack).Accounted := by
  intro fd sid stillOpen
  obtain ⟨holder, holds⟩ := accounted fd sid stillOpen
  refine ⟨holder, holds.moves id (fun j => id) fun j here => ?_⟩
  rwa [setStack_fdToSid]

theorem PlaneState.Accounted.resumes (accounted : pl.Accounted) {next : Listener}
    (free : pl.listener.held = none) : { pl with listener := next }.Accounted := by
  intro fd sid stillOpen
  obtain ⟨holder, holds⟩ := accounted fd sid stillOpen
  refine ⟨holder, holds.moves (fun held => ?_) (fun j => id) (fun j => id)⟩
  cases free.symm.trans held

theorem acceptStep_accounted {fd : Int} {nonBlocking : Bool}
    (step : acceptStep fd nonBlocking pl = some (post, events))
    (accounted : pl.Accounted) : post.Accounted := by
  cases acceptStep_accepts step with
  | taken was =>
      intro other sid stillOpen
      dsimp only at stillOpen
      rw [Function.update_apply] at stillOpen
      split at stillOpen
      · rename_i same
        refine ⟨.listener, ?_⟩
        rw [PlaneState.Holds, same, ← Option.some.inj stillOpen]
        rfl
      · obtain ⟨holder, holds⟩ := accounted other sid stillOpen
        refine ⟨holder, holds.moves (fun held => ?_) (fun j => id) (fun j => id)⟩
        rw [was] at held
        cases held
  | blocking was => exact accounted.resumes (congrArg Listener.held was)

theorem listenerStep_accounted {round : UInt64}
    (step : listenerStep cfg round pl = some (post, events)) (accounted : pl.Accounted) :
    post.Accounted := by
  have held : ∀ {idx conn fd sid}, pl.listener = .push idx conn → ⟨fd, sid⟩ ≠ conn →
      pl.listener.held ≠ some ⟨fd, sid⟩ := by
    intro idx conn fd sid was other same
    rw [was] at same
    exact other (Option.some.inj same).symm
  cases listenerStep_listens step with
  | failed was => exact accounted.resumes (congrArg Listener.held was)
  | picked was =>
      intro fd sid stillOpen
      obtain ⟨holder, holds⟩ := accounted fd sid stillOpen
      refine ⟨holder, holds.moves (fun held => ?_) (fun j => id) (fun j => id)⟩
      rw [was] at held
      exact held
  | outOfRange was index => exact accounted
  | @refused _ conn was =>
      intro fd sid stillOpen
      dsimp only at stillOpen
      rw [Function.update_apply] at stillOpen
      split at stillOpen
      · cases stillOpen
      · rename_i closed
        have other : ⟨fd, sid⟩ ≠ conn := fun same => closed (congrArg NewConnection.fd same)
        obtain ⟨holder, holds⟩ := accounted fd sid stillOpen
        exact ⟨holder, holds.moves (fun same => absurd same (held was other)) (fun j => id)
          (fun j => id)⟩
  | @queued _ conn i was =>
      intro fd sid stillOpen
      by_cases this : ⟨fd, sid⟩ = conn
      · refine ⟨.queue i, ?_⟩
        simp only [PlaneState.Holds, Function.update_self, this, List.mem_append,
          List.mem_singleton, or_true]
      · obtain ⟨holder, holds⟩ := accounted fd sid stillOpen
        refine ⟨holder, holds.moves (fun same => absurd same (held was this))
          (fun j member => ?_) (fun j => id)⟩
        dsimp only
        by_cases here : j = i
        · subst here
          rw [Function.update_self]
          exact List.mem_append_left _ member
        · rwa [Function.update_of_ne here]
  | notified was =>
      intro fd sid stillOpen
      obtain ⟨holder, holds⟩ := accounted fd sid stillOpen
      refine ⟨holder, holds.moves (fun held => ?_) (fun j => id) (fun j => id)⟩
      rw [was] at held
      cases held

theorem accounted_of_same (listener : post.listener = pl.listener)
    (connQueue : post.connQueue = pl.connQueue) (reactor : post.reactor = pl.reactor)
    (sockets : post.sockets = pl.sockets) (accounted : pl.Accounted) : post.Accounted := by
  intro fd sid stillOpen
  rw [sockets] at stillOpen
  obtain ⟨holder, holds⟩ := accounted fd sid stillOpen
  refine ⟨holder, holds.moves (congrArg Listener.held listener).trans (fun j member => ?_) fun j here => ?_⟩
  · rwa [connQueue]
  · rwa [reactor]

end Turns

section Runs

variable {cfg : HubConfig} {wakeFd : Plane → Nat → Int}
  {taken : List (Taken HubServer Action Entry)} {h : HubServer}

theorem hubRun_accounted (run : HubRun cfg wakeFd taken h) (p : Plane) :
    (h.plane p).Accounted := by
  refine run.invariant (fun _ h => (h.plane p).Accounted) nofun ?_
  intro past pre act post events before accounted step
  have agrees := (hubRun_follows before p).2
  have planeStep := hubStep_plane p step
  generalize post.plane p = next at planeStep
  cases planeStep with
  | aside same inRange =>
      exact accounted_of_same same.listener same.connQueue same.reactor same.sockets accounted
  | accepted free step => exact acceptStep_accounted step accounted
  | listened step => exact listenerStep_accounted step accounted
  | reacted inside step =>
      obtain ⟨task, rest, top, _, ⟨mid, calls, turn, rfl⟩ | rfl⟩ := reactorStep_turns agrees step
      · exact (turn.accounted agrees accounted).setStack _
      · exact accounted
  | distributed step =>
      have apart := distributorStep_apart step
      exact accounted_of_same apart.listener apart.connQueue apart.reactor apart.sockets accounted

/-- The maps of every reactor are inverse, every open connection is held in exactly one
place under one session id, and the subscripts of the handlers find their session. -/
structure PlaneState.Owned (pl : PlaneState) : Prop where
  inverse : ∀ i, (pl.reactor i).Inverse
  holder : ∀ fd sid, pl.sockets fd = some sid ↔ ∃! holder, pl.Holds fd sid holder
  descriptor : ∀ fd other sid, pl.sockets fd = some sid → pl.sockets other = some sid → fd = other
  subscript : ∀ i fd k, (pl.reactor i).fdToSid fd = some k → pl.subscript i k = pl

theorem hubRun_owned (run : HubRun cfg wakeFd taken h) (p : Plane) : (h.plane p).Owned := by
  have agrees := (hubRun_follows run p).2
  have accounted := hubRun_accounted run p
  refine ⟨agrees.inverse, ?_, ?_, fun i fd k => subscript_found agrees⟩
  · intro fd sid
    constructor
    · intro stillOpen
      obtain ⟨holder, holds⟩ := accounted fd sid stillOpen
      refine ⟨holder, holds, fun other again => ?_⟩
      exact Holder.says_unique (agrees.holds again).1 (agrees.holds holds).1
    · rintro ⟨holder, holds, _⟩
      exact (agrees.holds holds).2
  · intro fd other sid here there
    obtain ⟨_, holds⟩ := accounted fd sid here
    obtain ⟨_, again⟩ := accounted other sid there
    exact agrees.one_fd holds again

end Runs

end HiImCore.Hub
