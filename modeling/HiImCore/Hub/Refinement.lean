import HiImCore.Hub.Agreement
import HiImCore.Hub.System
import HiImCore.Hub.ThreadSteps

/-! Every run of the hub follows the registry: on each plane the events are legal, and
the registry they lead to describes the plane's session maps and router. -/

namespace HiImCore.Hub

open Replay Transition Wire

variable {g : Registry} {pl : PlaneState} {i : Nat}

theorem Follows.cons {c : Core} {event : Event} {events : List Event} (allowed : g.Allows event)
    (later : Follows (g.apply event) events c) : Follows g (event :: events) c :=
  ⟨⟨allowed, later.1⟩, later.2⟩

section Calls

theorem closeSession_follows (agrees : Agrees g pl.core) (k : Nat) :
    Follows g (closeSession i k pl).events (closeSession i k pl).state.core := by
  rw [core_closeSession, closeSession_events]
  cases present : pl.core.keys i k with
  | none =>
      rw [Core.close_absent present]
      exact agrees.follows_nil
  | some key => exact agrees.close_follows present

theorem sendBytes_follows (agrees : Agrees g pl.core) {k : Nat} {session : Session}
    (present : pl.core.keys i k = some session.key) (data : Bytes) :
    Follows g (sendBytes i k session data pl).events (sendBytes i k session data pl).state.core := by
  cases empty : data.isEmpty with
  | true =>
      simp only [sendBytes, empty, if_true]
      exact agrees.follows_nil
  | false =>
      have was := agrees.live i k session.key present
      have rekeyed := agrees.rekey present
        { session with outbuf := session.outbuf ++ data : Session }.key rfl rfl
      have applied : g.apply (.appended i k data) =
          g.setConn k (.live i { session.key.ident with out := session.outbuf ++ data }) := by
        simp only [Registry.apply, was, Registry.extended]
        rfl
      rw [core_sendBytes pl i k session data empty]
      simp only [sendBytes, empty, Bool.false_eq_true, if_false]
      refine Follows.cons ⟨session.key.ident, was⟩ ?_
      rw [applied]
      exact rekeyed.follows_nil

theorem wrote_follows (agrees : Agrees g pl.core) {k : Nat} {session : Session}
    (present : pl.core.keys i k = some session.key) {count : Nat}
    (bound : count ≤ session.outbuf.length) :
    Follows g [.wrote i k (session.outbuf.take count)]
      (pl.setSession i k { session with outbuf := session.outbuf.drop count }).core := by
  have was := agrees.live i k session.key present
  have rekeyed := agrees.rekey present
    { session with outbuf := session.outbuf.drop count : Session }.key rfl rfl
  rw [← core_setSession] at rekeyed
  have applied : g.apply (.wrote i k (session.outbuf.take count)) =
      g.setConn k (.live i { session.key.ident with out := session.outbuf.drop count }) := by
    simp only [Registry.apply, was, Registry.written, List.length_take, Nat.min_eq_left bound]
    rfl
  refine Follows.cons ⟨session.key.ident, was, List.take_prefix count session.outbuf⟩ ?_
  rw [applied]
  exact rekeyed.follows_nil

theorem answer_follows (agrees : Agrees g pl.core) {k : Nat} {session : Session}
    (present : pl.core.keys i k = some session.key) {event : Event} (allowed : g.Allows event)
    (router : Router) (applied : g.apply event = { g with router := router }) (data : Bytes) :
    Follows g (event :: (sendBytes i k session data { pl with router := router }).events)
      (sendBytes i k session data { pl with router := router }).state.core := by
  have changed : Agrees (g.apply event) { pl with router := router : PlaneState }.core := by
    rw [applied]
    exact agrees.setRouter router
  exact Follows.cons allowed (sendBytes_follows changed present data)

theorem authenticate_agrees (agrees : Agrees g pl.core) {k : Nat} {session : Session}
    (present : pl.core.keys i k = some session.key) (gid nid : UInt32) :
    Agrees (g.apply (.bound i session.sid gid nid))
      { pl.setSession i k { session with authed := true, gid := gid, nid := nid } with
        router := pl.router.bindNid nid session.sid i : PlaneState }.core := by
  have same : session.sid = k := agrees.sid i k session.key present
  have was := agrees.live i k session.key present
  have rekeyed := agrees.rekey present
    { session with authed := true, gid := gid, nid := nid : Session }.key rfl rfl
  rw [← core_setSession] at rekeyed
  have bound := rekeyed.setRouter (pl.router.bindNid nid session.sid i)
  have applied : g.apply (.bound i session.sid gid nid) =
      { g.setConn k (.live i { session.key.ident with authed := true, gid := gid, nid := nid }) with
        router := pl.router.bindNid nid session.sid i } := by
    simp only [Registry.apply, same, was, Registry.authenticated, agrees.router]
    rfl
  rw [applied]
  exact bound

theorem handleSystem_follows (agrees : Agrees g pl.core) {k : Nat} {session : Session}
    (present : pl.core.keys i k = some session.key) (cfg : HubConfig) (frame : FrameView) :
    Follows g (handleSystem cfg i k session frame pl).1.events
      (handleSystem cfg i k session frame pl).1.state.core := by
  have same : session.sid = k := agrees.sid i k session.key present
  have was : g.conn session.sid = .live i session.key.ident :=
    same ▸ agrees.live i k session.key present
  unfold handleSystem
  dsimp only
  split
  · split
    · exact closeSession_follows agrees session.sid
    · rename_i auth _
      split
      · -- the record is rewritten and the nid bound before the answer goes out
        refine Follows.cons ⟨session.key.ident, was⟩ ?_
        exact sendBytes_follows (authenticate_agrees agrees present _ _)
          (setSession_present pl i k _) _
      · exact closeSession_follows agrees session.sid
  · split
    · exact closeSession_follows agrees session.sid
    · rename_i accepted
      refine answer_follows agrees present ?_ _ ?_ _
      · exact ⟨i, session.key.ident, was, authed_of_accepted accepted, rfl, rfl, rfl⟩
      · simp only [Registry.apply, agrees.router]
        rfl
  · split
    · exact agrees.follows_nil
    · rename_i accepted
      refine answer_follows agrees present ?_ _ ?_ _
      · exact ⟨i, session.key.ident, was, authed_of_accepted accepted⟩
      · simp only [Registry.apply, agrees.router]
        rfl
  · exact sendBytes_follows agrees present _
  · exact agrees.follows_nil

theorem enqueueInbound_follows (agrees : Agrees g pl.core) {k : Nat} {session : Session}
    (present : pl.core.keys i k = some session.key) (frame : FrameView) :
    Follows g (enqueueInbound i k session frame pl).events
      (enqueueInbound i k session frame pl).state.core := by
  have same : session.sid = k := agrees.sid i k session.key present
  have was := agrees.live i k session.key present
  unfold enqueueInbound
  split
  · exact closeSession_follows agrees session.sid
  · rename_i accepted
    have authed : session.authed = true := by simpa using accepted
    have rekeyed := agrees.rekey present
      { session with popped := session.popped + 1 : Session }.key rfl rfl
    rw [← core_setSession] at rekeyed
    have applied : g.apply (.received i ⟨session.sid, session.popped, frame⟩) =
        g.setConn k (.live i { session.key.ident with popped := session.popped + 1 }) := by
      simp only [Registry.apply, same, was, Registry.counted]
      rfl
    refine Follows.cons ⟨session.key.ident, by rw [same]; exact was, authed, rfl⟩ ?_
    rw [applied]
    exact rekeyed.follows_nil

theorem registerConnection_follows (agrees : Agrees g pl.core) {conn : NewConnection}
    {left : List NewConnection} (front : pl.connQueue i = conn :: left) :
    Follows g [.registered i conn]
      (registerConnection i conn
        { pl with connQueue := Function.update pl.connQueue i left }).core := by
  obtain ⟨was, owned⟩ := agrees.queued i conn (by
    rw [show pl.core.connQueue i = conn :: left from front]
    exact List.mem_cons_self)
  have absent : (pl.reactor i).sessions conn.sid = none := by
    cases found : (pl.reactor i).sessions conn.sid with
    | none => rfl
    | some session =>
        have two := agrees.live i conn.sid session.key (by rw [core_keys, found]; rfl)
        rw [was] at two
        cases two
  rw [core_registerConnection pl i left absent]
  exact ⟨⟨was, trivial⟩, agrees.register front⟩

end Calls

section Steps

variable {cfg : HubConfig} {input : ReactorInput} {rest : List Task} {post : PlaneState}
  {events : List Event}

theorem quiet_follows (agrees : Agrees g pl.core) (same : post.core = pl.core) :
    Follows g [] post.core := by
  rw [same]
  exact agrees.follows_nil

theorem setStack_follows {stack : List Task} (follows : Follows g events post.core) :
    Follows g events (post.setStack i stack).core := by
  rw [core_setStack]
  exact follows

theorem dangle_follows (agrees : Agrees g pl.core) (k : Nat) :
    Follows g (dangle i k pl).2 (dangle i k pl).1.core :=
  Follows.cons trivial agrees.follows_nil

theorem present_of_found {k : Nat} {session : Session}
    (found : (pl.reactor i).sessions k = some session) :
    pl.core.keys i k = some session.key := by
  rw [core_keys, found, Option.map_some]

theorem buffer_agrees (agrees : Agrees g pl.core) {k : Nat} {session : Session}
    (found : (pl.reactor i).sessions k = some session) (fb : FrameBuffer) :
    Agrees g (pl.setSession i k { session with fb := fb }).core := by
  rw [core_setSession]
  exact agrees.rekey_same (present_of_found found) rfl

theorem stepPoll_follows (agrees : Agrees g pl.core)
    (step : stepPoll i input pl rest = some (post, events)) : Follows g events post.core := by
  unfold stepPoll at step
  split at step <;> cases step <;> exact setStack_follows agrees.follows_nil

theorem stepEvents_follows (agrees : Agrees g pl.core) {batch : List PollEvent}
    (step : stepEvents i input pl rest batch = some (post, events)) :
    Follows g events post.core := by
  unfold stepEvents at step
  split at step <;> cases step <;> exact setStack_follows agrees.follows_nil

theorem subscript_agrees (agrees : Agrees g pl.core) {fd : Int} {k : Nat}
    (found : (pl.reactor i).fdToSid fd = some k) : Agrees g (pl.subscript i k).core := by
  obtain ⟨key, present, _⟩ := agrees.keyOfFd i fd k found
  rw [core_subscript pl i k key present]
  exact agrees

theorem stepReadable_follows (agrees : Agrees g pl.core) {fd : Int}
    (step : stepReadable i input pl rest fd = some (post, events)) :
    Follows g events post.core := by
  unfold stepReadable at step
  split at step
  · split at step
    · cases step
      exact setStack_follows agrees.follows_nil
    · split at step
      · cases step
        exact setStack_follows agrees.follows_nil
      · rename_i found
        cases step
        exact setStack_follows (subscript_agrees agrees found).follows_nil
  · cases step

theorem stepWritable_follows (agrees : Agrees g pl.core) {fd : Int}
    (step : stepWritable i input pl rest fd = some (post, events)) :
    Follows g events post.core := by
  unfold stepWritable at step
  split at step
  · split at step
    · cases step
      exact setStack_follows agrees.follows_nil
    · rename_i found
      cases step
      exact setStack_follows (subscript_agrees agrees found).follows_nil
  · cases step

theorem stepRecv_follows (agrees : Agrees g pl.core) {k : Nat}
    (step : stepRecv i input pl rest k = some (post, events)) : Follows g events post.core := by
  unfold stepRecv at step
  split at step
  · cases step
    exact dangle_follows agrees k
  · rename_i session bytes found
    split at step
    · cases step
      exact setStack_follows (buffer_agrees agrees found _).follows_nil
    · cases step
  · cases step
    exact setStack_follows agrees.follows_nil
  · cases step
    exact setStack_follows (closeSession_follows agrees _)
  · cases step
    exact setStack_follows (closeSession_follows agrees _)
  · cases step

theorem stepPop_follows (agrees : Agrees g pl.core) {k : Nat}
    (step : stepPop cfg i input pl rest k = some (post, events)) : Follows g events post.core := by
  unfold stepPop at step
  split at step
  · cases step
    exact dangle_follows agrees k
  · rename_i session found
    split at step
    · cases step
      exact setStack_follows (buffer_agrees agrees found _).follows_nil
    · rename_i frame left _
      have popped : Agrees g (pl.setSession i k { session with fb := left }).core :=
        buffer_agrees agrees found _
      have present := setSession_present pl i k { session with fb := left }
      dsimp only at step
      split at step
      · cases step
        refine Follows.cons ?_ (setStack_follows (handleSystem_follows popped present cfg frame))
        exact ⟨i, session.key.ident, agrees.live i k _ (present_of_found found)⟩
      · cases step
        exact setStack_follows (enqueueInbound_follows popped present frame)
  · cases step

theorem stepPush_follows (agrees : Agrees g pl.core) {k : Nat} {msg : Tagged InboundMessage}
    {attempt : Nat} (step : stepPush cfg i input pl rest k msg attempt = some (post, events)) :
    Follows g events post.core := by
  unfold stepPush at step
  split at step
  · cases step
    exact Follows.cons trivial agrees.follows_nil
  · split at step
    · cases step
      exact setStack_follows (Follows.cons trivial agrees.follows_nil)
    · cases step
      exact setStack_follows agrees.follows_nil
    · split at step
      · cases step
        exact dangle_follows agrees k
      · cases step
        exact setStack_follows agrees.follows_nil
  · cases step

theorem stepWrite_follows (agrees : Agrees g pl.core) {k : Nat}
    (step : stepWrite i input pl rest k = some (post, events)) : Follows g events post.core := by
  unfold stepWrite at step
  split at step
  · cases step
    exact dangle_follows agrees k
  · rename_i session found
    split at step
    · split at step
      · cases step
        exact setStack_follows (quiet_follows agrees (core_updateInterest ..))
      · cases step
    · split at step
      · split at step
        · rename_i count bound
          cases step
          exact setStack_follows (wrote_follows agrees (present_of_found found) bound)
        · cases step
      · cases step
        exact setStack_follows (quiet_follows agrees (core_updateInterest ..))
      · cases step
        exact setStack_follows (closeSession_follows agrees _)
      · cases step
        exact setStack_follows (closeSession_follows agrees _)
      · cases step

theorem stepDrainNew_follows (agrees : Agrees g pl.core)
    (step : stepDrainNew i input pl rest = some (post, events)) : Follows g events post.core := by
  unfold stepDrainNew at step
  split at step
  · cases step
    exact setStack_follows agrees.follows_nil
  · rename_i popped
    cases step
    exact setStack_follows (registerConnection_follows agrees (pop_some popped))
  · cases step

theorem stepDrainSend_follows (agrees : Agrees g pl.core)
    (step : stepDrainSend i input pl rest = some (post, events)) : Follows g events post.core := by
  unfold stepDrainSend at step
  split at step
  · cases step
    exact setStack_follows agrees.follows_nil
  · rename_i item left popped
    dsimp only at step
    split at step
    · rename_i absent
      cases step
      refine Follows.cons ?_ (setStack_follows agrees.follows_nil)
      constructor
      · intro no
        cases no
      · rintro ⟨id, is⟩
        obtain ⟨key, present, _⟩ := agrees.keyed i _ id is
        rw [core_keys, absent] at present
        cases present
    · rename_i session found
      cases step
      have taken : Agrees g
          { pl with sendQueue := Function.update pl.sendQueue i left : PlaneState }.core := agrees
      refine Follows.cons ?_ (setStack_follows (sendBytes_follows taken (present_of_found found) _))
      constructor
      · intro _
        exact ⟨session.key.ident, agrees.live i _ _ (present_of_found found)⟩
      · intro _
        rfl
  · cases step

theorem stepCloseAll_follows (agrees : Agrees g pl.core)
    (step : stepCloseAll i input pl rest = some (post, events)) : Follows g events post.core := by
  unfold stepCloseAll at step
  split at step
  · cases step
    exact setStack_follows (closeSession_follows agrees _)
  · cases step

theorem reactorStep_follows (agrees : Agrees g pl.core)
    (step : reactorStep cfg i input pl = some (post, events)) : Follows g events post.core := by
  unfold reactorStep at step
  split at step
  · cases step
  · exact stepPoll_follows agrees step
  · exact stepEvents_follows agrees step
  · exact stepDrainNew_follows agrees step
  · exact stepDrainSend_follows agrees step
  · exact stepReadable_follows agrees step
  · exact stepRecv_follows agrees step
  · exact stepPop_follows agrees step
  · exact stepPush_follows agrees step
  · exact stepWritable_follows agrees step
  · exact stepWrite_follows agrees step
  · exact stepCloseAll_follows agrees step

theorem acceptStep_follows (agrees : Agrees g pl.core) {fd : Int} {nonBlocking : Bool}
    (free : pl.sockets fd = none) (step : acceptStep fd nonBlocking pl = some (post, events)) :
    Follows g events post.core := by
  cases acceptStep_accepts step with
  | taken was =>
      refine Follows.cons ?_ (agrees.accept free).follows_nil
      exact agrees.unborn pl.nextSid (Nat.le_refl _)
  | blocking was => exact (agrees.resumes (again_held pl)).follows_nil

theorem listenerStep_follows {round : UInt64} (agrees : Agrees g pl.core)
    (step : listenerStep cfg round pl = some (post, events)) : Follows g events post.core := by
  cases listenerStep_listens step with
  | failed was => exact (agrees.resumes (again_held pl)).follows_nil
  | picked was =>
      refine Follows.cons trivial (Agrees.follows_nil { agrees with held := ?_ })
      intro conn pending
      refine agrees.held conn ?_
      change pl.listener.held = some conn
      rw [was]
      exact pending
  | outOfRange was index => exact Follows.cons trivial agrees.follows_nil
  | refused was =>
      have held := congrArg Listener.held was
      exact Follows.cons (agrees.held _ held).1 (agrees.refuse held (again_held pl)).follows_nil
  | queued was =>
      have held := congrArg Listener.held was
      exact Follows.cons (agrees.held _ held).1 (agrees.enqueue _ held).follows_nil
  | notified was => exact (agrees.resumes (again_held pl)).follows_nil

theorem distributorStep_follows (agrees : Agrees g pl.core)
    (step : distributorStep cfg pl = some (post, events)) : Follows g events post.core := by
  cases distributorStep_distributes step with
  | took | outOfRange | posted => exact Follows.cons trivial agrees.follows_nil
  | _ => exact agrees.follows_nil

theorem workerStep_peer {p : Plane} {w : Nat} {own peer : PlaneState} {s : WorkerStep}
    (agrees : Agrees g peer.core) (step : workerStep cfg p w own peer = some s) :
    Follows g s.peer peer.core := by
  have router : g.router = peer.router := agrees.router
  have next : ∀ msg subs, Follows g (publishNext msg subs).2 peer.core := by
    intro msg subs
    cases subs with
    | nil => exact Follows.cons trivial agrees.follows_nil
    | cons sub rest => exact agrees.follows_nil
  unfold workerStep at step
  dsimp only at step
  split at step
  · cases step
  · split at step
    · cases step
      exact agrees.follows_nil
    · cases step
      exact agrees.follows_nil
  · rename_i msg _
    split at step
    · cases step
      exact agrees.follows_nil
    · cases step
      simp only [forwardUplinkHandler]
      split
      · exact Follows.cons (by rw [Registry.Allows, router])
          (Follows.cons trivial agrees.follows_nil)
      · exact Follows.cons (by rw [Registry.Allows, router]) (next _ _)
    · cases step
      simp only [backendDownlinkHandler]
      split
      · exact agrees.follows_nil
      · split
        · rename_i absent
          exact Follows.cons (by rw [Registry.Allows, router, absent])
            (Follows.cons trivial agrees.follows_nil)
        · rename_i route found
          exact Follows.cons (by rw [Registry.Allows, router, found]) agrees.follows_nil
  · split at step
    · split at step
      · cases step
        exact Follows.cons trivial (Follows.cons trivial agrees.follows_nil)
      · cases step
        exact Follows.cons trivial (next _ _)
    · cases step
      exact agrees.follows_nil
    · cases step
      exact Follows.cons trivial agrees.follows_nil

theorem workerStep_own {p : Plane} {w : Nat} {own peer : PlaneState} {s : WorkerStep}
    (agrees : Agrees g own.core) (step : workerStep cfg p w own peer = some s) :
    Follows g s.own own.core := by
  unfold workerStep at step
  dsimp only at step
  split at step
  · cases step
  · split at step
    · cases step
      exact agrees.follows_nil
    · cases step
      exact Follows.cons trivial agrees.follows_nil
  · split at step <;> cases step <;> exact agrees.follows_nil
  · split at step
    · split at step <;> cases step <;> exact agrees.follows_nil
    · cases step
      exact agrees.follows_nil
    · cases step
      exact agrees.follows_nil

end Steps

section Runs

variable {cfg : HubConfig}

def onPlane (p : Plane) (history : List Entry) : List Event :=
  history.filterMap fun entry => if entry.1 = p then some entry.2 else none

@[simp] theorem onPlane_nil (p : Plane) : onPlane p [] = [] := rfl

@[simp] theorem onPlane_append (p : Plane) (first second : List Entry) :
    onPlane p (first ++ second) = onPlane p first ++ onPlane p second :=
  List.filterMap_append

@[simp] theorem onPlane_map (p q : Plane) (events : List Event) :
    onPlane p (events.map (Prod.mk q)) = if q = p then events else [] := by
  induction events with
  | nil => simp [onPlane]
  | cons event later ih =>
      by_cases same : q = p <;> simp [onPlane, same] at ih ⊢

theorem mem_onPlane {p : Plane} {e : Event} {history : List Entry} :
    e ∈ onPlane p history ↔ (p, e) ∈ history := by
  simp only [onPlane, List.mem_filterMap]
  constructor
  · rintro ⟨⟨q, x⟩, member, same⟩
    split at same
    · rename_i here
      obtain rfl := Option.some.inj same
      rwa [← here]
    · cases same
  · intro member
    exact ⟨(p, e), member, by simp⟩

theorem onPlane_split {p : Plane} {e : Event} {before later : List Entry} :
    onPlane p (before ++ (p, e) :: later) = onPlane p before ++ e :: onPlane p later := by
  rw [onPlane_append]
  simp [onPlane]

theorem localStep_follows {h post : HubServer} {p q : Plane} {entries : List Entry}
    {result : Option (PlaneState × List Event)} (agrees : Agrees g (h.plane q).core)
    (follows : ∀ pl events, result = some (pl, events) → q = p → Follows g events pl.core)
    (step : localStep h p result = some (post, entries)) :
    Follows g (onPlane q entries) (post.plane q).core := by
  simp only [localStep, Option.map_eq_some_iff] at step
  obtain ⟨⟨pl, events⟩, done, same⟩ := step
  cases same
  by_cases here : p = q
  · subst here
    rw [onPlane_map, if_pos rfl, HubServer.setPlane_self]
    exact follows pl events done rfl
  · rw [onPlane_map, if_neg here, HubServer.setPlane_other h pl (Ne.symm here)]
    exact agrees.follows_nil

theorem hubStep_follows {h post : HubServer} {act : Action} {entries : List Entry} (q : Plane)
    (agrees : Agrees g (h.plane q).core) (step : hubStep cfg h act = some (post, entries)) :
    Follows g (onPlane q entries) (post.plane q).core := by
  unfold hubStep at step
  split at step
  · cases step
  · cases act with
    | accept p fd nonBlocking =>
        dsimp only at step
        split at step
        · rename_i free
          refine localStep_follows agrees ?_ step
          intro pl events done here
          subst here
          refine acceptStep_follows agrees ?_ done
          cases q <;> simp_all [HubServer.fdFree]
        · cases step
    | listener p =>
        have counted : Agrees g ((h.counted p).plane q).core := agrees
        refine localStep_follows counted ?_ step
        intro pl events done here
        exact listenerStep_follows (here ▸ agrees) done
    | reactor p i input =>
        dsimp only at step
        split at step
        · refine localStep_follows agrees ?_ step
          intro pl events done here
          exact reactorStep_follows (here ▸ agrees) done
        · cases step
    | worker p w =>
        dsimp only at step
        split at step
        · simp only [Option.map_eq_some_iff] at step
          obtain ⟨s, done, same⟩ := step
          cases same
          by_cases own : q = p
          · subst own
            have other := Plane.peer_ne q
            have follows := workerStep_own agrees done
            rw [onPlane_append, onPlane_map, onPlane_map, if_pos rfl, if_neg other,
              List.append_nil, HubServer.setPlane_other _ _ other.symm, HubServer.setPlane_self]
            exact follows
          · obtain rfl := Plane.eq_peer own
            have follows := workerStep_peer agrees done
            rw [onPlane_append, onPlane_map, onPlane_map, if_pos rfl, if_neg (Ne.symm own),
              List.nil_append, HubServer.setPlane_self]
            exact follows
        · cases step
    | distributor p =>
        refine localStep_follows agrees ?_ step
        intro pl events done here
        exact distributorStep_follows (here ▸ agrees) done
    | stop p =>
        refine localStep_follows agrees ?_ step
        intro pl events done here
        subst here
        cases done
        exact agrees.follows_nil

theorem hubRun_follows {wakeFd : Plane → Nat → Int} {taken : List (Taken HubServer Action Entry)}
    {h : HubServer} (run : HubRun cfg wakeFd taken h) (p : Plane) :
    Follows .empty (onPlane p (trace taken)) (h.plane p).core := by
  refine run.invariant (fun history h => Follows .empty (onPlane p history) (h.plane p).core) ?_ ?_
  · exact (agrees_init (wakeFd p)).follows_nil
  · intro past pre act post events _ follows step
    rw [onPlane_append]
    obtain ⟨legal, agrees⟩ := hubStep_follows p follows.2 step
    refine ⟨?_, ?_⟩
    · exact (along_append _ _ _ _ _).mpr ⟨follows.1, legal⟩
    · rw [replay_append]
      exact agrees

end Runs

end HiImCore.Hub
