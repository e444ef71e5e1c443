import HiImCore.Hub.Registry
import HiImCore.Hub.Threads

/-! The part of a plane that decides who is connected, with receive buffers, control
stacks and message queues forgotten. -/

namespace HiImCore.Hub

structure SessionKey where
  sid : Nat
  fd : Int
  ident : Ident

def Session.key (s : Session) : SessionKey :=
  ⟨s.sid, s.fd, ⟨s.authed, s.gid, s.nid, s.popped, s.outbuf⟩⟩

@[ext] structure Core where
  router : Router
  nextSid : Nat
  connQueue : Nat → List NewConnection
  sockets : Int → Option Nat
  listener : Listener
  keys : Nat → Nat → Option SessionKey
  fdToSid : Nat → Int → Option Nat

def PlaneState.core (pl : PlaneState) : Core where
  router := pl.router
  nextSid := pl.nextSid
  connQueue := pl.connQueue
  sockets := pl.sockets
  listener := pl.listener
  keys := fun i k => ((pl.reactor i).sessions k).map Session.key
  fdToSid := fun i => (pl.reactor i).fdToSid

namespace Core

def putKey (c : Core) (i k : Nat) (key : SessionKey) : Core :=
  { c with keys := Function.update c.keys i (Function.update (c.keys i) k (some key)) }

def close (c : Core) (i k : Nat) : Core :=
  match c.keys i k with
  | none => c
  | some key =>
      { c with
        router :=
          if key.ident.authed then c.router.removeSession key.sid key.ident.nid else c.router
        sockets := Function.update c.sockets key.fd none
        keys := Function.update c.keys i (Function.update (c.keys i) k none)
        fdToSid := Function.update c.fdToSid i (Function.update (c.fdToSid i) key.fd none) }

def register (c : Core) (i : Nat) (conn : NewConnection) (left : List NewConnection) : Core :=
  { c with
    connQueue := Function.update c.connQueue i left
    keys := Function.update c.keys i
      (Function.update (c.keys i) conn.sid (some ⟨conn.sid, conn.fd, .fresh⟩))
    fdToSid := Function.update c.fdToSid i
      (Function.update (c.fdToSid i) conn.fd (some conn.sid)) }

theorem update_update {α β : Type} [DecidableEq α] (table : Nat → α → β) (i j : Nat) (a b : α)
    (value : β) : Function.update table i (Function.update (table i) a value) j b =
      if j = i ∧ b = a then value else table j b := by
  simp only [Function.update_apply]
  by_cases row : j = i
  · subst row
    by_cases column : b = a <;> simp [column]
  · simp [row]

theorem putKey_keys (c : Core) (i k j l : Nat) (key : SessionKey) :
    (c.putKey i k key).keys j l = if j = i ∧ l = k then some key else c.keys j l :=
  update_update c.keys i j k l (some key)

theorem putKey_same (c : Core) (i k : Nat) (key : SessionKey) (present : c.keys i k = some key) :
    c.putKey i k key = c := by
  have rows : Function.update (c.keys i) k (some key) = c.keys i := by
    rw [← present, Function.update_eq_self]
  simp only [putKey, rows, Function.update_eq_self]

theorem close_absent {c : Core} {i k : Nat} (absent : c.keys i k = none) : c.close i k = c := by
  simp only [close, absent]

theorem close_keys (c : Core) (i k j l : Nat) :
    (c.close i k).keys j l = if j = i ∧ l = k then none else c.keys j l := by
  unfold close
  split
  · rename_i absent
    split
    · rename_i here
      rw [here.1, here.2, absent]
    · rfl
  · exact update_update c.keys i j k l none

theorem close_fdToSid {c : Core} {i k : Nat} {key : SessionKey} (present : c.keys i k = some key)
    (j : Nat) (fd : Int) :
    (c.close i k).fdToSid j fd = if j = i ∧ fd = key.fd then none else c.fdToSid j fd := by
  simp only [close, present]
  exact update_update c.fdToSid i j key.fd fd none

theorem close_sockets {c : Core} {i k : Nat} {key : SessionKey} (present : c.keys i k = some key)
    (fd : Int) : (c.close i k).sockets fd = if fd = key.fd then none else c.sockets fd := by
  simp only [close, present, Function.update_apply]

theorem close_listener (c : Core) (i k : Nat) :
    (c.close i k).connQueue = c.connQueue ∧ (c.close i k).listener = c.listener ∧
      (c.close i k).nextSid = c.nextSid := by
  unfold close
  split <;> exact ⟨rfl, rfl, rfl⟩

end Core

theorem authed_of_accepted {request : Bool} {bad : Prop}
    (accepted : ¬ (request = false ∨ bad)) : request = true := by
  cases request with
  | true => rfl
  | false => exact absurd (Or.inl rfl) accepted

section Projection

variable (pl : PlaneState) (i k : Nat)

theorem core_keys : pl.core.keys i k = ((pl.reactor i).sessions k).map Session.key := rfl

theorem core_setReactor (r : Reactor)
    (sessions : ∀ k, (r.sessions k).map Session.key = ((pl.reactor i).sessions k).map Session.key)
    (descriptors : r.fdToSid = (pl.reactor i).fdToSid) :
    (pl.setReactor i r).core = pl.core := by
  have keys : (pl.setReactor i r).core.keys = pl.core.keys := by
    funext j k
    simp only [PlaneState.core, PlaneState.setReactor, Function.update_apply]
    split
    · rename_i here
      subst here
      exact sessions k
    · rfl
  have fds : (pl.setReactor i r).core.fdToSid = pl.core.fdToSid := by
    funext j
    simp only [PlaneState.core, PlaneState.setReactor, Function.update_apply]
    split
    · rename_i here
      subst here
      exact descriptors
    · rfl
  exact Core.ext rfl rfl rfl rfl rfl keys fds

@[simp] theorem core_setStack (stack : List Task) : (pl.setStack i stack).core = pl.core :=
  core_setReactor pl i _ (fun _ => rfl) rfl

@[simp] theorem core_updateInterest (fd : Int) (wantRead wantWrite : Bool) :
    (pl.updateInterest i fd wantRead wantWrite).core = pl.core := by
  unfold PlaneState.updateInterest
  split
  · rfl
  · exact core_setReactor pl i _ (fun _ => rfl) rfl

@[simp] theorem core_setSession (s : Session) :
    (pl.setSession i k s).core = pl.core.putKey i k s.key := by
  have keys : (pl.setSession i k s).core.keys = (pl.core.putKey i k s.key).keys := by
    funext j l
    rw [Core.putKey_keys]
    simp only [PlaneState.core, PlaneState.setSession, PlaneState.setReactor,
      Function.update_apply]
    by_cases reactor : j = i
    · subst reactor
      by_cases session : l = k <;> simp [session]
    · simp [reactor]
  have fds : (pl.setSession i k s).core.fdToSid = pl.core.fdToSid := by
    funext j
    simp only [PlaneState.core, PlaneState.setSession, PlaneState.setReactor,
      Function.update_apply]
    split
    · rename_i here
      rw [here]
    · rfl
  exact Core.ext rfl rfl rfl rfl rfl keys fds

theorem setSession_present (s : Session) : (pl.setSession i k s).core.keys i k = some s.key := by
  rw [core_setSession, Core.putKey_keys, if_pos ⟨rfl, rfl⟩]

theorem core_subscript (key : SessionKey) (present : pl.core.keys i k = some key) :
    (pl.subscript i k).core = pl.core := by
  rw [core_keys, Option.map_eq_some_iff] at present
  obtain ⟨session, found, _⟩ := present
  simp only [PlaneState.subscript, found]

theorem core_registerConnection {conn : NewConnection} (left : List NewConnection)
    (absent : (pl.reactor i).sessions conn.sid = none) :
    (registerConnection i conn { pl with connQueue := Function.update pl.connQueue i left }).core =
      pl.core.register i conn left := by
  have keys : ∀ j l, (registerConnection i conn
      { pl with connQueue := Function.update pl.connQueue i left }).core.keys j l =
        (pl.core.register i conn left).keys j l := by
    intro j l
    simp only [registerConnection, absent, Option.getD_none, PlaneState.core, Core.register,
      PlaneState.setReactor, Function.update_apply]
    by_cases reactor : j = i
    · subst reactor
      by_cases session : l = conn.sid <;> simp [session, Session.key, Session.fresh, Ident.fresh]
    · simp [reactor]
  have fds : ∀ j, (registerConnection i conn
      { pl with connQueue := Function.update pl.connQueue i left }).core.fdToSid j =
        (pl.core.register i conn left).fdToSid j := by
    intro j
    simp only [registerConnection, PlaneState.core, Core.register, PlaneState.setReactor,
      Function.update_apply]
    by_cases reactor : j = i <;> simp [reactor]
  exact Core.ext rfl rfl rfl rfl rfl (funext fun j => funext (keys j)) (funext fds)

theorem core_closeSession : (closeSession i k pl).state.core = pl.core.close i k := by
  unfold closeSession Core.close
  rw [core_keys]
  cases found : (pl.reactor i).sessions k with
  | none => rfl
  | some session =>
      simp only [Option.map_some, PlaneState.core, Session.key]
      congr 1
      · funext j l
        simp only [Function.update_apply]
        by_cases reactor : j = i
        · subst reactor
          by_cases target : l = k <;> simp [target]
        · simp [reactor]
      · funext j
        simp only [Function.update_apply]
        by_cases reactor : j = i <;> simp [reactor]

theorem closeSession_calls : (closeSession i k pl).calls = [] := by
  unfold closeSession
  split <;> rfl

theorem closeSession_events :
    (closeSession i k pl).events =
      if (pl.core.keys i k).isSome then [Event.closed i k] else [] := by
  rw [core_keys]
  unfold closeSession
  split
  · rename_i found
    simp [found]
  · rename_i session found
    simp [found]

theorem core_sendBytes (s : Session) (data : Wire.Bytes) (some : data.isEmpty = false) :
    (sendBytes i k s data pl).state.core =
      pl.core.putKey i k { s with outbuf := s.outbuf ++ data : Session }.key := by
  simp only [sendBytes, some, Bool.false_eq_true, if_false, core_updateInterest, core_setSession]

theorem sendBytes_ackFrame (s : Session) (cmd : Wire.SysCmd) (nid : UInt32) :
    sendBytes i k s (ackFrame cmd nid) pl =
      ⟨(pl.setSession i k { s with outbuf := s.outbuf ++ ackFrame cmd nid }).updateInterest i s.fd
          true true,
        [.handleWritable s.fd], [.appended i k (ackFrame cmd nid)]⟩ := by
  have answer : (ackFrame cmd nid).isEmpty = false :=
    List.isEmpty_eq_false_iff.mpr (Wire.encodeFrame_ne_nil _ _ _ _)
  simp only [sendBytes, answer, Bool.false_eq_true, if_false]

end Projection

end HiImCore.Hub
