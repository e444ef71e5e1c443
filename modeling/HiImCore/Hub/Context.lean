import HiImCore.Hub.Queue
import HiImCore.Hub.Router
import HiImCore.Im.Header
import HiImCore.Wire.Auth

/-! The shared state of one plane (`include/hiim/hub/context.hpp`) together with the
control states of its threads. The worker and distributor wake-ups only cut their
polls short and carry no data, so they are left out. -/

namespace HiImCore.Hub

open Wire

inductive Plane where
  | kForward
  | kBackend
  deriving DecidableEq, Repr

def Plane.peer : Plane → Plane
  | .kForward => .kBackend
  | .kBackend => .kForward

theorem Plane.peer_peer (p : Plane) : p.peer.peer = p := by
  cases p <;> rfl

theorem Plane.eq_peer {p q : Plane} (other : q ≠ p) : q = p.peer := by
  cases p <;> cases q <;> first | rfl | exact absurd rfl other

theorem Plane.peer_ne (p : Plane) : p.peer ≠ p := by
  cases p <;> decide

structure HubConfig where
  reactorThreads : Int
  workerThreads : Int
  queueCapacity : Nat
  authUser : Bytes
  authPass : Bytes

namespace HubConfig

/-- `std::max(1, reactor_threads)`. -/
def reactors (cfg : HubConfig) : Nat := (max 1 cfg.reactorThreads).toNat

/-- `std::max(1, worker_threads)`. -/
def workers (cfg : HubConfig) : Nat := (max 1 cfg.workerThreads).toNat

end HubConfig

structure OutboundFrame where
  sid : Nat
  reactorIdx : Int
  bytes : Bytes
  deriving DecidableEq, Repr

structure InboundMessage where
  sid : Nat
  reactorIdx : Int
  gid : UInt32
  nid : UInt32
  type : UInt32
  flag : UInt32
  payload : Bytes
  deriving DecidableEq, Repr

structure NewConnection where
  fd : Int
  sid : Nat
  deriving DecidableEq, Repr

instance : MoveSource OutboundFrame := ⟨fun f => { f with bytes := [] }⟩

instance : MoveSource InboundMessage := ⟨fun m => { m with payload := [] }⟩

/-- The business frame a queued value stems from: its session, its number in the
order in which the session's `FrameBuffer` popped business frames, and the frame as
it was popped. Ghost data: no step of the hub looks at it. -/
structure Origin where
  sid : Nat
  num : Nat
  frame : FrameView
  deriving DecidableEq, Repr

structure Tagged (α : Type) where
  val : α
  origin : Origin
  deriving DecidableEq, Repr

instance {α : Type} [MoveSource α] : MoveSource (Tagged α) :=
  ⟨fun t => { t with val := movedFrom t.val }⟩

/-- `Reactor::Session`. The ghost `popped` counts the business frames taken so far. -/
structure Session where
  sid : Nat
  fd : Int
  authed : Bool
  gid : UInt32
  nid : UInt32
  fb : FrameBuffer
  outbuf : Bytes
  popped : Nat

def Session.fresh : Session := ⟨0, -1, false, 0, 0, .empty, [], 0⟩

structure Interest where
  read : Bool
  write : Bool
  deriving DecidableEq, Repr

structure PollEvent where
  fd : Int
  readable : Bool
  writable : Bool
  deriving DecidableEq, Repr

/-- The calls and loops a reactor thread can be inside of. A task that refers to a
session names the key under which its reference was obtained. -/
inductive Task where
  | poll
  | events (batch : List PollEvent)
  | drainNewConnections
  | drainSendQueue
  | handleReadable (fd : Int)
  | recvLoop (sid : Nat)
  | popLoop (sid : Nat)
  | pushInbound (sid : Nat) (msg : Tagged InboundMessage) (attempt : Nat)
  | handleWritable (fd : Int)
  | writeLoop (sid : Nat)
  | closeAll
  deriving DecidableEq

/-- The members of a `Reactor` and its control stack, innermost call first. -/
structure Reactor where
  fdToSid : Int → Option Nat
  sessions : Nat → Option Session
  interest : Int → Option Interest
  stack : List Task

/-- A listener is inside `accept`, or between its return and the next round of the loop. -/
inductive Listener where
  | accept
  | pick (conn : NewConnection)
  | push (idx : Int) (conn : NewConnection)
  | notify (idx : Nat)
  | stopped

namespace Listener

def held : Listener → Option NewConnection
  | pick conn | push _ conn => some conn
  | _ => none

end Listener

inductive Worker where
  | pop
  | handle (msg : Tagged InboundMessage)
  | push (msg : Tagged InboundMessage) (out : Tagged OutboundFrame) (attempt : Nat)
      (rest : Option (List Subscriber))
  | stopped

inductive Distributor where
  | pop
  | route (frame : Tagged OutboundFrame) (attempt : Nat)
  | notify (idx : Nat)
  | stopped

structure PlaneState where
  running : Bool
  router : Router
  nextSid : Nat
  connQueue : Nat → List NewConnection
  recvQueue : Nat → List (Tagged InboundMessage)
  sendQueue : Nat → List (Tagged OutboundFrame)
  distQueue : List (Tagged OutboundFrame)
  wakeFd : Nat → Int
  wakeReadable : Nat → Bool
  /-- The kernel's open connection sockets of this plane. -/
  sockets : Int → Option Nat
  listener : Listener
  reactor : Nat → Reactor
  worker : Nat → Worker
  distributor : Distributor
  /-- The program has no defined behaviour from here on. -/
  fault : Bool

/-- What the steps of a plane do, as an observer of the whole run records it. -/
inductive Event where
  | accepted (fd : Int) (sid : Nat)
  | refused (fd : Int) (sid : Nat)
  | picked (conn : NewConnection)
  | queued (i : Nat) (conn : NewConnection)
  | registered (i : Nat) (conn : NewConnection)
  | closed (i : Nat) (sid : Nat)
  | system (sid : Nat) (frame : FrameView)
  | bound (i : Nat) (sid : Nat) (gid nid : UInt32)
  | subscribed (cmd : UInt32) (sub : Subscriber)
  | unsubscribed (cmd : UInt32) (sid : Nat)
  | received (i : Nat) (origin : Origin)
  | recvPushed (w : Nat) (msg : Tagged InboundMessage)
  | recvPopped (w : Nat) (msg : Tagged InboundMessage)
  | resolved (origin : Origin) (nid : UInt32) (route : Option NidRoute)
  | expanded (origin : Origin) (cmd : UInt32) (subs : List Subscriber)
  | returned (origin : Origin) (status : Status)
  | distPushed (frame : Tagged OutboundFrame)
  | distPopped (frame : Tagged OutboundFrame)
  | sendPushed (i : Nat) (frame : Tagged OutboundFrame)
  | sendPopped (i : Nat) (frame : Tagged OutboundFrame) (isOpen : Bool)
  | appended (i : Nat) (sid : Nat) (data : Bytes)
  | wrote (i : Nat) (sid : Nat) (data : Bytes)
  | dangling (i : Nat) (sid : Nat)
  | outOfRange
  deriving DecidableEq

/-- `vector::at(static_cast<std::size_t>(idx))`; `none` where it throws. -/
def queueIndex (count : Nat) (idx : Int) : Option Nat :=
  if 0 ≤ idx ∧ idx < count then some idx.toNat else none

def Reactor.init : Reactor := ⟨fun _ => none, fun _ => none, fun _ => none, [.poll]⟩

def PlaneState.init (wakeFd : Nat → Int) : PlaneState where
  running := true
  router := .empty
  nextSid := 1
  connQueue := fun _ => []
  recvQueue := fun _ => []
  sendQueue := fun _ => []
  distQueue := []
  wakeFd := wakeFd
  wakeReadable := fun _ => false
  sockets := fun _ => none
  listener := .accept
  reactor := fun _ => .init
  worker := fun _ => .pop
  distributor := .pop
  fault := false

end HiImCore.Hub
