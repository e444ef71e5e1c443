import HiImCore.Hub.Context
import HiImCore.Lib.Replay

/-! What a plane is for, seen from its history alone: connections are accepted,
handed to a reactor, authenticated, subscribed, written to and closed, and the router
follows. No descriptors or threads appear here. -/

namespace HiImCore.Hub

open Replay Wire

structure Ident where
  authed : Bool
  gid : UInt32
  nid : UInt32
  popped : Nat
  /-- The bytes appended to the session's stream and not yet written. -/
  out : Bytes

def Ident.fresh : Ident := ⟨false, 0, 0, 0, []⟩

/-- The life of a connection. -/
inductive Conn where
  | unborn
  | accepted
  | queued (i : Nat)
  | live (i : Nat) (id : Ident)
  | gone

structure Registry where
  conn : Nat → Conn
  router : Router

namespace Registry

def empty : Registry := ⟨fun _ => .unborn, .empty⟩

def setConn (g : Registry) (sid : Nat) (c : Conn) : Registry :=
  { g with conn := Function.update g.conn sid c }

def routerAfter (g : Registry) (sid : Nat) : Conn → Router
  | .live _ id => if id.authed then g.router.removeSession sid id.nid else g.router
  | _ => g.router

def counted : Conn → Conn
  | .live i id => .live i { id with popped := id.popped + 1 }
  | c => c

def extended (data : Bytes) : Conn → Conn
  | .live i id => .live i { id with out := id.out ++ data }
  | c => c

def written (data : Bytes) : Conn → Conn
  | .live i id => .live i { id with out := id.out.drop data.length }
  | c => c

def authenticated (gid nid : UInt32) : Conn → Conn
  | .live i id => .live i { id with authed := true, gid := gid, nid := nid }
  | c => c

def apply (g : Registry) : Event → Registry
  | .accepted _ sid => g.setConn sid .accepted
  | .refused _ sid => g.setConn sid .gone
  | .queued i conn => g.setConn conn.sid (.queued i)
  | .registered i conn => g.setConn conn.sid (.live i .fresh)
  | .closed _ sid =>
      { (g.setConn sid .gone) with router := g.routerAfter sid (g.conn sid) }
  | .bound i sid gid nid =>
      { (g.setConn sid (authenticated gid nid (g.conn sid))) with
        router := g.router.bindNid nid sid i }
  | .subscribed cmd sub => { g with router := (g.router.subscribe cmd sub).2 }
  | .unsubscribed cmd sid => { g with router := (g.router.unsubscribe cmd sid).2 }
  | .received _ origin => g.setConn origin.sid (counted (g.conn origin.sid))
  | .appended _ sid data => g.setConn sid (extended data (g.conn sid))
  | .wrote _ sid data => g.setConn sid (written data (g.conn sid))
  | _ => g

/-- What an event presupposes. -/
def Allows (g : Registry) : Event → Prop
  | .accepted _ sid => g.conn sid = .unborn
  | .refused _ sid => g.conn sid = .accepted
  | .queued _ conn => g.conn conn.sid = .accepted
  | .registered i conn => g.conn conn.sid = .queued i
  | .closed i sid => ∃ id, g.conn sid = .live i id
  | .system sid _ => ∃ i id, g.conn sid = .live i id
  | .bound i sid _ _ => ∃ id, g.conn sid = .live i id
  | .subscribed _ sub =>
      ∃ (i : Nat) (id : Ident), g.conn sub.sid = .live i id ∧ id.authed = true ∧
        sub.gid = id.gid ∧ sub.nid = id.nid ∧ sub.reactorIdx = i
  | .unsubscribed _ sid => ∃ i id, g.conn sid = .live i id ∧ id.authed = true
  | .received i origin =>
      ∃ id, g.conn origin.sid = .live i id ∧ id.authed = true ∧ origin.num = id.popped
  | .appended i sid _ => ∃ id, g.conn sid = .live i id
  | .wrote i sid data => ∃ id, g.conn sid = .live i id ∧ data <+: id.out
  | .resolved _ nid route => route = g.router.findNidRoute nid
  | .expanded _ cmd subs => subs = g.router.findSubscribers cmd
  | .sendPopped i frame isOpen => isOpen = true ↔ ∃ id, g.conn frame.val.sid = .live i id
  | _ => True

/-- The histories a plane may have. -/
def Legal (g : Registry) (history : List Event) : Prop := Along apply Allows g history

@[simp] theorem setConn_conn (g : Registry) (sid k : Nat) (c : Conn) :
    (g.setConn sid c).conn k = if k = sid then c else g.conn k := by
  simp only [setConn, Function.update_apply]

@[simp] theorem setConn_router (g : Registry) (sid : Nat) (c : Conn) :
    (g.setConn sid c).router = g.router := rfl

section Frame

variable {g : Registry} {sid k : Nat} {before state : Conn}

theorem conn_ne (was : g.conn sid = before) (is : g.conn k = state) (different : state ≠ before) :
    k ≠ sid := by
  rintro rfl
  exact different (is.symm.trans was)

theorem setConn_kept (was : g.conn sid = before) (is : g.conn k = state)
    (different : state ≠ before) (c : Conn) : (g.setConn sid c).conn k = state := by
  rw [setConn_conn, if_neg (conn_ne was is different)]
  exact is

end Frame

end Registry

end HiImCore.Hub
