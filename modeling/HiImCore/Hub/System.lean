import HiImCore.Hub.Threads
import HiImCore.Lib.Transition

/-! The two-plane hub (`src/hub/hub_server.cpp`): the threads of both planes take
their steps in any order. -/

namespace HiImCore.Hub

open Transition Wire

structure HubServer where
  plane : Plane → PlaneState
  /-- The counter of `PickReactor`, a function-local static shared by both listeners. -/
  round : UInt64

inductive Action where
  | accept (p : Plane) (fd : Int) (nonBlocking : Bool)
  | listener (p : Plane)
  | reactor (p : Plane) (i : Nat) (input : ReactorInput)
  | worker (p : Plane) (w : Nat)
  | distributor (p : Plane)
  | stop (p : Plane)
  deriving DecidableEq, Repr

/-- An event and the plane on which it happens. -/
abbrev Entry := Plane × Event

namespace HubServer

def init (wakeFd : Plane → Nat → Int) : HubServer := ⟨fun p => .init (wakeFd p), 0⟩

def setPlane (h : HubServer) (p : Plane) (pl : PlaneState) : HubServer :=
  { h with plane := Function.update h.plane p pl }

@[simp] theorem setPlane_self (h : HubServer) (p : Plane) (pl : PlaneState) :
    (h.setPlane p pl).plane p = pl := Function.update_self ..

theorem setPlane_other (h : HubServer) {p q : Plane} (pl : PlaneState) (other : q ≠ p) :
    (h.setPlane p pl).plane q = h.plane q := Function.update_of_ne other ..

theorem forall_setPlane {h : HubServer} {p : Plane} {pl : PlaneState}
    {P : Plane → PlaneState → Prop} (here : P p pl) (others : ∀ q, P q (h.plane q)) :
    ∀ q, P q ((h.setPlane p pl).plane q) := by
  intro q
  by_cases same : q = p
  · subst same
    rw [setPlane_self]
    exact here
  · rw [setPlane_other h pl same]
    exact others q

theorem forall_setPlanes {h : HubServer} {p : Plane} {own peer : PlaneState}
    {P : Plane → PlaneState → Prop} (here : P p own) (there : P p.peer peer) :
    ∀ q, P q (((h.setPlane p own).setPlane p.peer peer).plane q) := by
  intro q
  by_cases other : q = p.peer
  · subst other
    rw [setPlane_self]
    exact there
  · obtain rfl : q = p := (Plane.eq_peer other).trans p.peer_peer
    rw [setPlane_other _ _ other, setPlane_self]
    exact here

/-- The shared counter of `PickReactor` after a step of this plane's listener. -/
def counted (h : HubServer) (p : Plane) : HubServer :=
  { h with round := if (h.plane p).listener.counts then h.round + 1 else h.round }

/-- The kernel hands out only descriptors that are not open: neither a connection nor
a wake-up of either plane. -/
def fdFree (cfg : HubConfig) (h : HubServer) (fd : Int) : Bool :=
  [Plane.kForward, Plane.kBackend].all fun p =>
    (h.plane p).sockets fd == none &&
      (List.range cfg.reactors).all fun i => (h.plane p).wakeFd i != fd

def sound (h : HubServer) : Bool := !(h.plane .kForward).fault && !(h.plane .kBackend).fault

end HubServer

/-- A step of a thread that touches only its own plane. -/
def localStep (h : HubServer) (p : Plane) (result : Option (PlaneState × List Event)) :
    Option (HubServer × List Entry) :=
  result.map fun (pl, events) => (h.setPlane p pl, events.map (Prod.mk p))

def hubStep (cfg : HubConfig) (h : HubServer) (a : Action) : Option (HubServer × List Entry) :=
  if h.sound = false then none
  else
    match a with
    | .accept p fd nonBlocking =>
        if h.fdFree cfg fd then
          localStep h p (acceptStep fd nonBlocking (h.plane p))
        else none
    | .listener p => localStep (h.counted p) p (listenerStep cfg h.round (h.plane p))
    | .reactor p i input =>
        if i < cfg.reactors then localStep h p (reactorStep cfg i input (h.plane p)) else none
    | .worker p w =>
        if w < cfg.workers then
          (workerStep cfg p w (h.plane p) (h.plane p.peer)).map fun s =>
            let own :=
              { h.plane p with
                worker := Function.update (h.plane p).worker w s.worker
                recvQueue := Function.update (h.plane p).recvQueue w s.recvQueue }
            let peer := { h.plane p.peer with distQueue := s.distQueue }
            ((h.setPlane p own).setPlane p.peer peer,
              s.own.map (Prod.mk p) ++ s.peer.map (Prod.mk p.peer))
        else none
    | .distributor p => localStep h p (distributorStep cfg (h.plane p))
    | .stop p => localStep h p (some ({ h.plane p with running := false }, []))

def hubSystem (cfg : HubConfig) : System HubServer Action Entry := ⟨hubStep cfg⟩

/-- The runs of the hub from its start. -/
abbrev HubRun (cfg : HubConfig) (wakeFd : Plane → Nat → Int) :=
  Run (hubSystem cfg) (HubServer.init wakeFd)

section Schedules

variable (p : Plane) (i : Nat)

/-- One round of a reactor's loop in which a descriptor is readable: `inside` are the
steps that `HandleReadable` takes after its lookup. -/
def reading (fd : Int) (inside : List ReactorInput) : List Action :=
  let inputs := .poll [⟨fd, true, false⟩] :: .run :: .run :: inside ++ [.run, .run]
  inputs.map (Action.reactor p i)

def connecting (wakeFd : Plane → Nat → Int) (fd : Int) : List Action :=
  [.accept p fd true, .listener p, .listener p, .listener p] ++
    reading p i (wakeFd p i) [.run, .run, .run]

def requesting (fd : Int) (frame : Bytes) : List Action :=
  reading p i fd
    [.recv (.data frame), .run, .run, .send (.sent kWireHeaderSize), .run, .run, .recv .wouldBlock]

def ending (fd : Int) : List Action := reading p i fd [.recv .endOfStream]

def authenticating (fd : Int) (nid : UInt32) : List Action :=
  requesting p i fd (encodeAuthFrame 1 [] [] nid)

def subscribing (fd : Int) (cmd : UInt32) : List Action :=
  requesting p i fd (encodeFrame SysCmd.kSubReq.code 0 kFlagSys (image32 (hostToBe32 cmd)))

def sending (fd : Int) (frames : List Bytes) : List Action :=
  reading p i fd
    (.recv (.data frames.flatten) :: List.replicate (2 * frames.length) .run ++
      [.run, .recv .wouldBlock])

/-- A message passes the worker and the peer's distributor and is written to a session of
the peer's reactor, `size` bytes at once. -/
def forwarding (wakeFd : Plane → Nat → Int) (size : Nat) : List Action :=
  List.replicate 3 (.worker p 0) ++ List.replicate 3 (.distributor p.peer) ++
    reading p.peer i (wakeFd p.peer i) [.run, .run, .run, .send (.sent size), .run, .run]

end Schedules

section SmallHub

/-- One reactor and one worker a plane, and the wake-ups at descriptors 100 and 101. -/
def smallConfig (queueCapacity : Nat) : HubConfig := ⟨1, 1, queueCapacity, [], []⟩

def smallWakeFd : Plane → Nat → Int
  | .kForward, _ => 100
  | .kBackend, _ => 101

def popping (session : Session) : PlaneState :=
  (PlaneState.init (smallWakeFd .kForward)).setReactor 0
    { Reactor.init with
      sessions := Function.update (fun _ => none) session.sid (some session)
      stack := [.popLoop session.sid] }

theorem small_run (capacity : Nat) (ok : Taken HubServer Action Entry → Bool)
    (acts : List Action) (P : HubServer × List Entry → Bool)
    (check : (follow (hubSystem (smallConfig capacity)) ok (.init smallWakeFd) acts).any P = true) :
    ∃ taken h, HubRun (smallConfig capacity) smallWakeFd taken h ∧
      Within (fun x => ok x = true) taken ∧ P (h, trace taken) = true :=
  run_of_follow _ ok _ acts P check

/-- A forward session 1 and a backend session 1, authenticated with nids 1 and 2, of which
the second has subscribed to type 9. -/
def linked : List Action :=
  connecting .kForward 0 smallWakeFd 5 ++ authenticating .kForward 0 5 1 ++
    (connecting .kBackend 0 smallWakeFd 6 ++ authenticating .kBackend 0 6 2) ++
    subscribing .kBackend 0 6 9

def businessFrame (payload : Bytes) : Bytes := encodeFrame 9 0 kFlagExp payload

/-- Two frames of the forward session are published to the backend session. -/
def publishing : List Action :=
  linked ++ sending .kForward 0 5 [businessFrame [1], businessFrame [2]] ++
    (forwarding .kForward 0 smallWakeFd 21 ++ forwarding .kForward 0 smallWakeFd 21)

def answering : List Action :=
  linked ++ sending .kBackend 0 6 [businessFrame (Im.packPayload 9 0 1 0 [])] ++
    forwarding .kBackend 0 smallWakeFd 72

end SmallHub

end HiImCore.Hub
