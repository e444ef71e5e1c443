import HiImCore.Hub.Core

/-! The agreement between the registry and the core of a plane, and the changes that
keep it. -/

namespace HiImCore.Hub

open Replay

/-- The registry describes this core: its live connections are the keys of the session
maps, the two maps of a reactor are inverse to each other, every connection sits in one
place and owns its socket. -/
structure Agrees (g : Registry) (c : Core) : Prop where
  router : g.router = c.router
  live : ∀ i k key, c.keys i k = some key → g.conn k = .live i key.ident
  keyed : ∀ i k id, g.conn k = .live i id → ∃ key, c.keys i k = some key ∧ key.ident = id
  sid : ∀ i k key, c.keys i k = some key → key.sid = k
  fdOfKey : ∀ i k key, c.keys i k = some key → c.fdToSid i key.fd = some k
  keyOfFd : ∀ i fd k, c.fdToSid i fd = some k → ∃ key, c.keys i k = some key ∧ key.fd = fd
  socket : ∀ i k key, c.keys i k = some key → c.sockets key.fd = some k
  queued : ∀ i conn, conn ∈ c.connQueue i →
    g.conn conn.sid = .queued i ∧ c.sockets conn.fd = some conn.sid
  distinct : ∀ i, ((c.connQueue i).map NewConnection.sid).Nodup
  held : ∀ conn, c.listener.held = some conn →
    g.conn conn.sid = .accepted ∧ c.sockets conn.fd = some conn.sid
  unborn : ∀ k, c.nextSid ≤ k → g.conn k = .unborn

def Follows (g : Registry) (events : List Event) (c : Core) : Prop :=
  Registry.Legal g events ∧ Agrees (replay Registry.apply g events) c

theorem agrees_init (wakeFd : Nat → Int) : Agrees .empty (PlaneState.init wakeFd).core where
  router := rfl
  live := by intro i k key found; cases found
  keyed := by intro i k id found; cases found
  sid := by intro i k key found; cases found
  fdOfKey := by intro i k key found; cases found
  keyOfFd := by intro i fd k found; cases found
  socket := by intro i k key found; cases found
  queued := by intro i conn member; cases member
  distinct := by intro i; exact List.nodup_nil
  held := by intro conn pending; cases pending
  unborn := by intro k bound; rfl

namespace Agrees

variable {g : Registry} {c : Core} {i k : Nat} {key : SessionKey}

theorem follows_nil (agrees : Agrees g c) : Follows g [] c := ⟨trivial, agrees⟩

theorem key_home (agrees : Agrees g c) {j : Nat} {other : SessionKey}
    (here : c.keys i k = some key) (there : c.keys j k = some other) : j = i := by
  have one := agrees.live i k key here
  have two := agrees.live j k other there
  rw [one] at two
  exact (Conn.live.inj two).1.symm

theorem socket_other {sockets : Int → Option Nat} {fd d : Int} {l : Nat}
    (owned : sockets fd = some k) (owns : sockets d = some l) (different : l ≠ k) : d ≠ fd := by
  rintro rfl
  rw [owned] at owns
  exact different (Option.some.inj owns).symm

theorem key_unique (agrees : Agrees g c) {j l : Nat} {other : SessionKey}
    (here : c.keys i k = some key) (there : c.keys j l = some other)
    (fd : other.fd = key.fd) : j = i ∧ l = k := by
  have first := agrees.socket i k key here
  have second := agrees.socket j l other there
  rw [fd, first] at second
  have same : k = l := Option.some.inj second
  subst same
  exact ⟨agrees.key_home here there, rfl⟩

theorem setRouter (agrees : Agrees g c) (r : Router) :
    Agrees { g with router := r } { c with router := r } :=
  { agrees with router := rfl }

theorem rekey (agrees : Agrees g c) (present : c.keys i k = some key) (after : SessionKey)
    (sid : after.sid = key.sid) (fd : after.fd = key.fd) :
    Agrees (g.setConn k (.live i after.ident)) (c.putKey i k after) := by
  have was := agrees.live i k key present
  refine
    { router := agrees.router
      live := ?_, keyed := ?_, sid := ?_, fdOfKey := ?_, keyOfFd := ?_, socket := ?_
      queued := ?_, distinct := agrees.distinct, held := ?_, unborn := ?_ }
  · intro j l other found
    rw [Core.putKey_keys] at found
    rw [Registry.setConn_conn]
    split at found
    · rename_i here
      rw [if_pos here.2, here.1, Option.some.inj found]
    · rename_i elsewhere
      rw [if_neg]
      · exact agrees.live j l other found
      · rintro rfl
        exact elsewhere ⟨agrees.key_home present found, rfl⟩
  · intro j l id found
    rw [Registry.setConn_conn] at found
    rw [Core.putKey_keys]
    split at found
    · rename_i same
      obtain ⟨rfl, rfl⟩ := Conn.live.inj found
      exact ⟨after, by rw [if_pos ⟨rfl, same⟩], rfl⟩
    · rename_i other
      rw [if_neg (fun here => other here.2)]
      exact agrees.keyed j l id found
  · intro j l other found
    rw [Core.putKey_keys] at found
    split at found
    · rename_i here
      rw [← Option.some.inj found, sid, agrees.sid i k key present, here.2]
    · exact agrees.sid j l other found
  · intro j l other found
    rw [Core.putKey_keys] at found
    split at found
    · rename_i here
      rw [← Option.some.inj found, fd, here.1, here.2]
      exact agrees.fdOfKey i k key present
    · exact agrees.fdOfKey j l other found
  · intro j d l found
    obtain ⟨other, there, same⟩ := agrees.keyOfFd j d l found
    rw [Core.putKey_keys]
    split
    · rename_i here
      obtain ⟨rfl, rfl⟩ := here
      rw [present] at there
      exact ⟨after, rfl, by rw [fd, Option.some.inj there, same]⟩
    · exact ⟨other, there, same⟩
  · intro j l other found
    rw [Core.putKey_keys] at found
    split at found
    · rename_i here
      rw [← Option.some.inj found, fd, here.2]
      exact agrees.socket i k key present
    · exact agrees.socket j l other found
  · intro j conn member
    obtain ⟨waiting, owned⟩ := agrees.queued j conn member
    exact ⟨Registry.setConn_kept was waiting (by simp) _, owned⟩
  · intro conn pending
    obtain ⟨waiting, owned⟩ := agrees.held conn pending
    exact ⟨Registry.setConn_kept was waiting (by simp) _, owned⟩
  · intro l bound
    exact Registry.setConn_kept was (agrees.unborn l bound) (by simp) _

theorem rekey_same (agrees : Agrees g c) (present : c.keys i k = some key) {after : SessionKey}
    (same : after = key) : Agrees g (c.putKey i k after) := by
  rw [same, Core.putKey_same c i k key present]
  exact agrees

theorem close (agrees : Agrees g c) (present : c.keys i k = some key) :
    Agrees (g.apply (.closed i k)) (c.close i k) := by
  have was := agrees.live i k key present
  have keys := Core.close_keys c i k
  have fds := Core.close_fdToSid present
  have sockets := Core.close_sockets present
  obtain ⟨queues, listener, counter⟩ := Core.close_listener c i k
  have conns : ∀ l, (g.apply (.closed i k)).conn l = if l = k then .gone else g.conn l := by
    intro l
    exact Registry.setConn_conn g k l .gone
  -- what still waits in a queue or with the listener is another connection
  have waits : ∀ fd l (state : Conn), g.conn l = state → state ≠ .live i key.ident →
      c.sockets fd = some l →
      (g.apply (.closed i k)).conn l = state ∧ (c.close i k).sockets fd = some l := by
    intro fd l state waiting different owned
    have other := Registry.conn_ne was waiting different
    rw [conns, if_neg other, sockets,
      if_neg (socket_other (agrees.socket i k key present) owned other)]
    exact ⟨waiting, owned⟩
  refine
    { router := ?_, live := ?_, keyed := ?_, sid := ?_, fdOfKey := ?_, keyOfFd := ?_
      socket := ?_, queued := ?_, distinct := ?_, held := ?_, unborn := ?_ }
  · simp only [Registry.apply, Registry.routerAfter, was, Core.close, present,
      agrees.sid i k key present, agrees.router]
  · intro j l next found
    rw [keys] at found
    split at found
    · cases found
    · rename_i elsewhere
      rw [conns, if_neg]
      · exact agrees.live j l next found
      · rintro rfl
        exact elsewhere ⟨agrees.key_home present found, rfl⟩
  · intro j l id found
    rw [conns] at found
    split at found
    · cases found
    · rename_i different
      obtain ⟨next, there, same⟩ := agrees.keyed j l id found
      exact ⟨next, by rw [keys, if_neg (fun here => different here.2)]; exact there, same⟩
  · intro j l next found
    rw [keys] at found
    split at found
    · cases found
    · exact agrees.sid j l next found
  · intro j l next found
    rw [keys] at found
    split at found
    · cases found
    · rename_i elsewhere
      rw [fds, if_neg]
      · exact agrees.fdOfKey j l next found
      · rintro ⟨rfl, same⟩
        exact elsewhere (agrees.key_unique present found same)
  · intro j fd l found
    rw [fds] at found
    split at found
    · cases found
    · rename_i elsewhere
      obtain ⟨next, there, same⟩ := agrees.keyOfFd j fd l found
      refine ⟨next, ?_, same⟩
      rw [keys, if_neg]
      · exact there
      · rintro ⟨rfl, rfl⟩
        rw [present] at there
        obtain rfl := Option.some.inj there
        exact elsewhere ⟨rfl, same.symm⟩
  · intro j l next found
    rw [keys] at found
    split at found
    · cases found
    · rename_i elsewhere
      rw [sockets, if_neg]
      · exact agrees.socket j l next found
      · intro same
        exact elsewhere (agrees.key_unique present found same)
  · intro j conn member
    rw [queues] at member
    obtain ⟨waiting, owned⟩ := agrees.queued j conn member
    exact waits conn.fd conn.sid _ waiting (by simp) owned
  · intro j
    rw [queues]
    exact agrees.distinct j
  · intro conn pending
    rw [listener] at pending
    obtain ⟨waiting, owned⟩ := agrees.held conn pending
    exact waits conn.fd conn.sid _ waiting (by simp) owned
  · intro l bound
    rw [counter] at bound
    exact Registry.setConn_kept was (agrees.unborn l bound) (by simp) .gone

theorem close_follows (agrees : Agrees g c) (present : c.keys i k = some key) :
    Follows g [.closed i k] (c.close i k) :=
  ⟨⟨⟨key.ident, agrees.live i k key present⟩, trivial⟩, agrees.close present⟩

theorem register (agrees : Agrees g c) {conn : NewConnection} {left : List NewConnection}
    (front : c.connQueue i = conn :: left) :
    Agrees (g.apply (.registered i conn)) (c.register i conn left) := by
  obtain ⟨was, owned⟩ := agrees.queued i conn (by rw [front]; exact List.mem_cons_self)
  have keys : ∀ j l, (c.register i conn left).keys j l =
      if j = i ∧ l = conn.sid then some ⟨conn.sid, conn.fd, .fresh⟩ else c.keys j l :=
    fun j l => Core.update_update c.keys i j conn.sid l _
  have fds : ∀ j fd, (c.register i conn left).fdToSid j fd =
      if j = i ∧ fd = conn.fd then some conn.sid else c.fdToSid j fd :=
    fun j fd => Core.update_update c.fdToSid i j conn.fd fd _
  have conns : ∀ l, (g.apply (.registered i conn)).conn l =
      if l = conn.sid then .live i .fresh else g.conn l :=
    fun l => Registry.setConn_conn g conn.sid l _
  -- A connection that waits is no session yet, and its socket is no session's.
  have noKey : ∀ j key, c.keys j conn.sid ≠ some key := by
    intro j key found
    have two := agrees.live j conn.sid key found
    rw [was] at two
    cases two
  have noFd : ∀ j l key, c.keys j l = some key → key.fd ≠ conn.fd := by
    intro j l key found same
    have two := agrees.socket j l key found
    rw [same, owned] at two
    rw [← Option.some.inj two] at found
    exact noKey j key found
  have waiting : ∀ j other, other ∈ (c.register i conn left).connQueue j →
      other ∈ c.connQueue j ∧ other.sid ≠ conn.sid := by
    intro j other member
    simp only [Core.register, Function.update_apply] at member
    split at member
    · rename_i here
      subst here
      refine ⟨by rw [front]; exact List.mem_cons_of_mem _ member, ?_⟩
      have nodup := agrees.distinct j
      rw [front, List.map_cons, List.nodup_cons] at nodup
      intro same
      exact nodup.1 (same ▸ List.mem_map_of_mem member)
    · rename_i elsewhere
      refine ⟨member, ?_⟩
      intro same
      have two := (agrees.queued j other member).1
      rw [same, was] at two
      exact elsewhere (Conn.queued.inj two).symm
  refine
    { router := agrees.router
      live := ?_, keyed := ?_, sid := ?_, fdOfKey := ?_, keyOfFd := ?_, socket := ?_
      queued := ?_, distinct := ?_, held := ?_, unborn := ?_ }
  · intro j l other found
    rw [keys] at found
    rw [conns]
    split at found
    · rename_i here
      rw [if_pos here.2, here.1, ← Option.some.inj found]
    · rw [if_neg]
      · exact agrees.live j l other found
      · rintro rfl
        exact noKey j other found
  · intro j l id found
    rw [conns] at found
    split at found
    · rename_i same
      obtain ⟨rfl, rfl⟩ := Conn.live.inj found
      exact ⟨_, by rw [keys, if_pos ⟨rfl, same⟩], rfl⟩
    · rename_i different
      obtain ⟨other, there, same⟩ := agrees.keyed j l id found
      exact ⟨other, by rw [keys, if_neg (fun here => different here.2)]; exact there, same⟩
  · intro j l other found
    rw [keys] at found
    split at found
    · rename_i here
      rw [← Option.some.inj found, here.2]
    · exact agrees.sid j l other found
  · intro j l other found
    rw [keys] at found
    rw [fds]
    split at found
    · rename_i here
      rw [← Option.some.inj found, if_pos ⟨here.1, rfl⟩, here.2]
    · rw [if_neg (fun here => noFd j l other found here.2)]
      exact agrees.fdOfKey j l other found
  · intro j fd l found
    rw [fds] at found
    split at found
    · rename_i here
      exact ⟨_, by rw [keys, if_pos ⟨here.1, (Option.some.inj found).symm⟩], here.2.symm⟩
    · obtain ⟨other, there, same⟩ := agrees.keyOfFd j fd l found
      refine ⟨other, ?_, same⟩
      rw [keys, if_neg]
      · exact there
      · rintro ⟨rfl, rfl⟩
        exact noKey j other there
  · intro j l other found
    rw [keys] at found
    split at found
    · rename_i here
      rw [← Option.some.inj found, here.2]
      exact owned
    · exact agrees.socket j l other found
  · intro j other member
    obtain ⟨before, different⟩ := waiting j other member
    obtain ⟨still, owns⟩ := agrees.queued j other before
    exact ⟨by rw [conns, if_neg different]; exact still, owns⟩
  · intro j
    simp only [Core.register, Function.update_apply]
    split
    · rename_i here
      subst here
      have nodup := agrees.distinct j
      rw [front, List.map_cons, List.nodup_cons] at nodup
      exact nodup.2
    · exact agrees.distinct j
  · intro other pending
    obtain ⟨still, owns⟩ := agrees.held other pending
    exact ⟨Registry.setConn_kept was still (by simp) (.live i .fresh), owns⟩
  · intro l bound
    exact Registry.setConn_kept was (agrees.unborn l bound) (by simp) (.live i .fresh)

theorem accept (agrees : Agrees g c) {fd : Int} (free : c.sockets fd = none) :
    Agrees (g.apply (.accepted fd c.nextSid))
      { c with
        listener := .pick ⟨fd, c.nextSid⟩
        nextSid := c.nextSid + 1
        sockets := Function.update c.sockets fd (some c.nextSid) } := by
  have new := agrees.unborn c.nextSid (Nat.le_refl _)
  have conns : ∀ l, (g.apply (.accepted fd c.nextSid)).conn l =
      if l = c.nextSid then .accepted else g.conn l :=
    fun l => Registry.setConn_conn g c.nextSid l _
  have owns : ∀ d l, c.sockets d = some l →
      Function.update c.sockets fd (some c.nextSid) d = some l := by
    intro d l owned
    rw [Function.update_apply, if_neg]
    · exact owned
    · rintro rfl
      rw [free] at owned
      cases owned
  have kept : ∀ l (state : Conn), g.conn l = state → state ≠ .unborn →
      (g.apply (.accepted fd c.nextSid)).conn l = state :=
    fun l state is different => Registry.setConn_kept new is different .accepted
  refine
    { agrees with
      live := ?_, keyed := ?_, socket := ?_, queued := ?_, held := ?_, unborn := ?_ }
  · intro j l key found
    exact kept l _ (agrees.live j l key found) (by simp)
  · intro j l id found
    rw [conns] at found
    split at found
    · cases found
    · exact agrees.keyed j l id found
  · intro j l key found
    exact owns key.fd l (agrees.socket j l key found)
  · intro j conn member
    obtain ⟨waiting, owned⟩ := agrees.queued j conn member
    exact ⟨kept conn.sid _ waiting (by simp), owns conn.fd conn.sid owned⟩
  · intro conn pending
    obtain rfl := Option.some.inj pending
    exact ⟨by rw [conns, if_pos rfl], Function.update_self ..⟩
  · intro l bound
    have bound : c.nextSid + 1 ≤ l := bound
    rw [conns, if_neg (by omega)]
    exact agrees.unborn l (by omega)

theorem resumes (agrees : Agrees g c) {next : Listener} (free : next.held = none) :
    Agrees g { c with listener := next } := by
  refine { agrees with held := ?_ }
  intro conn pending
  cases free.symm.trans pending

theorem refuse (agrees : Agrees g c) {conn : NewConnection} {next : Listener}
    (pending : c.listener.held = some conn) (free : next.held = none) :
    Agrees (g.apply (.refused conn.fd conn.sid))
      { c with
        listener := next
        sockets := Function.update c.sockets conn.fd none } := by
  obtain ⟨was, owned⟩ := agrees.held conn pending
  have conns : ∀ l, (g.apply (.refused conn.fd conn.sid)).conn l =
      if l = conn.sid then .gone else g.conn l :=
    fun l => Registry.setConn_conn g conn.sid l _
  have kept : ∀ l (state : Conn), g.conn l = state → state ≠ .accepted →
      (g.apply (.refused conn.fd conn.sid)).conn l = state ∧ l ≠ conn.sid :=
    fun l state is different =>
      ⟨Registry.setConn_kept was is different .gone, Registry.conn_ne was is different⟩
  have owns : ∀ d l, c.sockets d = some l → l ≠ conn.sid →
      Function.update c.sockets conn.fd none d = some l := by
    intro d l owns different
    rw [Function.update_of_ne (socket_other owned owns different)]
    exact owns
  refine
    { agrees with
      live := ?_, keyed := ?_, socket := ?_, queued := ?_, held := ?_, unborn := ?_ }
  · intro j l key found
    exact (kept l _ (agrees.live j l key found) (by simp)).1
  · intro j l id found
    rw [conns] at found
    split at found
    · cases found
    · exact agrees.keyed j l id found
  · intro j l key found
    obtain ⟨_, other⟩ := kept l _ (agrees.live j l key found) (by simp)
    exact owns key.fd l (agrees.socket j l key found) other
  · intro j waiting member
    obtain ⟨is, socket⟩ := agrees.queued j waiting member
    obtain ⟨still, other⟩ := kept waiting.sid _ is (by simp)
    exact ⟨still, owns waiting.fd waiting.sid socket other⟩
  · intro other pending
    cases free.symm.trans pending
  · intro l bound
    exact (kept l _ (agrees.unborn l bound) (by simp)).1

theorem enqueue (agrees : Agrees g c) {conn : NewConnection} (i : Nat)
    (pending : c.listener.held = some conn) :
    Agrees (g.apply (.queued i conn))
      { c with
        listener := .notify i
        connQueue := Function.update c.connQueue i (c.connQueue i ++ [conn]) } := by
  obtain ⟨was, owned⟩ := agrees.held conn pending
  have conns : ∀ l, (g.apply (.queued i conn)).conn l =
      if l = conn.sid then .queued i else g.conn l :=
    fun l => Registry.setConn_conn g conn.sid l _
  have kept : ∀ l (state : Conn), g.conn l = state → state ≠ .accepted →
      (g.apply (.queued i conn)).conn l = state :=
    fun l state is different => Registry.setConn_kept was is different (.queued i)
  refine
    { agrees with
      live := ?_, keyed := ?_, queued := ?_, distinct := ?_, held := ?_, unborn := ?_ }
  · intro j l key found
    exact kept l _ (agrees.live j l key found) (by simp)
  · intro j l id found
    rw [conns] at found
    split at found
    · cases found
    · exact agrees.keyed j l id found
  · intro j waiting member
    simp only [Function.update_apply] at member
    split at member
    · rename_i here
      subst here
      rcases List.mem_append.mp member with before | last
      · obtain ⟨is, socket⟩ := agrees.queued j waiting before
        exact ⟨kept waiting.sid _ is (by simp), socket⟩
      · obtain rfl := List.mem_singleton.mp last
        exact ⟨by rw [conns, if_pos rfl], owned⟩
    · obtain ⟨is, socket⟩ := agrees.queued j waiting member
      exact ⟨kept waiting.sid _ is (by simp), socket⟩
  · intro j
    simp only [Function.update_apply]
    split
    · rename_i here
      subst here
      rw [List.map_append, List.map_singleton]
      refine List.nodup_append'.mpr ⟨agrees.distinct j, List.nodup_singleton _, ?_⟩
      intro l waiting last
      obtain ⟨before, member, rfl⟩ := List.mem_map.mp waiting
      have is := (agrees.queued j before member).1
      rw [List.mem_singleton.mp last, was] at is
      cases is
    · exact agrees.distinct j
  · intro other pending
    cases pending
  · intro l bound
    exact kept l _ (agrees.unborn l bound) (by simp)

end Agrees

end HiImCore.Hub
