import HiImCore.Hub.Registry

/-! What a legal history of a plane tells about its connections and its router. -/

namespace HiImCore.Hub

open Replay

def Event.subject : Event → Option Nat
  | .accepted _ sid | .refused _ sid | .closed _ sid | .bound _ sid _ _ | .appended _ sid _
  | .wrote _ sid _ => some sid
  | .queued _ conn | .registered _ conn => some conn.sid
  | .received _ origin => some origin.sid
  | _ => none

inductive ConnStep (k : Nat) : Event → Conn → Conn → Prop
  | same (e : Event) (c : Conn) (other : e.subject ≠ some k) : ConnStep k e c c
  | accepted (fd : Int) : ConnStep k (.accepted fd k) .unborn .accepted
  | refused (fd : Int) : ConnStep k (.refused fd k) .accepted .gone
  | queued (i : Nat) (fd : Int) : ConnStep k (.queued i ⟨fd, k⟩) .accepted (.queued i)
  | registered (i : Nat) (fd : Int) :
      ConnStep k (.registered i ⟨fd, k⟩) (.queued i) (.live i .fresh)
  | closed (i : Nat) (id : Ident) : ConnStep k (.closed i k) (.live i id) .gone
  | bound (i : Nat) (id : Ident) (gid nid : UInt32) :
      ConnStep k (.bound i k gid nid) (.live i id)
        (.live i { id with authed := true, gid := gid, nid := nid })
  | received (i : Nat) (id : Ident) (frame : Wire.FrameView) (authed : id.authed = true) :
      ConnStep k (.received i ⟨k, id.popped, frame⟩) (.live i id)
        (.live i { id with popped := id.popped + 1 })
  | appended (i : Nat) (id : Ident) (data : Wire.Bytes) :
      ConnStep k (.appended i k data) (.live i id) (.live i { id with out := id.out ++ data })
  | wrote (i : Nat) (id : Ident) (data : Wire.Bytes) (front : data <+: id.out) :
      ConnStep k (.wrote i k data) (.live i id)
        (.live i { id with out := id.out.drop data.length })

theorem apply_connStep {g : Registry} {e : Event} (allowed : g.Allows e) (k : Nat) :
    ConnStep k e (g.conn k) ((g.apply e).conn k) := by
  have other : ∀ {sid : Nat} {c : Conn}, k ≠ sid → (g.setConn sid c).conn k = g.conn k := by
    intro sid c different
    rw [Registry.setConn_conn, if_neg different]
  have apart : ∀ {sid : Nat}, k ≠ sid → some sid ≠ some k := fun different same =>
    different (Option.some.inj same).symm
  have here : ∀ {c : Conn}, (g.setConn k c).conn k = c := by
    intro c
    rw [Registry.setConn_conn, if_pos rfl]
  cases e with
  | accepted fd sid =>
      by_cases same : k = sid
      · subst same
        rw [show g.conn k = .unborn from allowed, Registry.apply, here]
        exact .accepted fd
      · rw [Registry.apply, other same]
        exact .same _ _ (apart same)
  | refused fd sid =>
      by_cases same : k = sid
      · subst same
        rw [show g.conn k = .accepted from allowed, Registry.apply, here]
        exact .refused fd
      · rw [Registry.apply, other same]
        exact .same _ _ (apart same)
  | queued i conn =>
      obtain ⟨fd, sid⟩ := conn
      by_cases same : k = sid
      · subst same
        rw [show g.conn k = .accepted from allowed, Registry.apply, here]
        exact .queued i fd
      · rw [Registry.apply, other same]
        exact .same _ _ (apart same)
  | registered i conn =>
      obtain ⟨fd, sid⟩ := conn
      by_cases same : k = sid
      · subst same
        rw [show g.conn k = .queued i from allowed, Registry.apply, here]
        exact .registered i fd
      · rw [Registry.apply, other same]
        exact .same _ _ (apart same)
  | closed i sid =>
      by_cases same : k = sid
      · subst same
        obtain ⟨id, was⟩ := allowed
        rw [was]
        simp only [Registry.apply, here]
        exact .closed i id
      · simp only [Registry.apply, other same]
        exact .same _ _ (apart same)
  | bound i sid gid nid =>
      by_cases same : k = sid
      · subst same
        obtain ⟨id, was⟩ := allowed
        simp only [Registry.apply, here, was, Registry.authenticated]
        exact .bound i id gid nid
      · simp only [Registry.apply, other same]
        exact .same _ _ (apart same)
  | received i origin =>
      obtain ⟨sid, num, frame⟩ := origin
      by_cases same : k = sid
      · subst same
        obtain ⟨id, was, authed, number⟩ := allowed
        simp only at number was
        subst number
        simp only [Registry.apply, here, was, Registry.counted]
        exact .received i id frame authed
      · rw [Registry.apply, other same]
        exact .same _ _ (apart same)
  | appended i sid data =>
      by_cases same : k = sid
      · subst same
        obtain ⟨id, was⟩ := allowed
        simp only [Registry.apply, here, was, Registry.extended]
        exact .appended i id data
      · rw [Registry.apply, other same]
        exact .same _ _ (apart same)
  | wrote i sid data =>
      by_cases same : k = sid
      · subst same
        obtain ⟨id, was, front⟩ := allowed
        simp only [Registry.apply, here, was, Registry.written]
        exact .wrote i id data front
      · rw [Registry.apply, other same]
        exact .same _ _ (apart same)
  -- the other events are of no connection's life
  | _ => exact .same _ _ nofun

section Connections

variable {g : Registry} {e : Event} {k : Nat}

theorem gone_stays (allowed : g.Allows e) (gone : g.conn k = .gone) : (g.apply e).conn k = .gone := by
  have step := apply_connStep allowed k
  rw [gone] at step
  generalize (g.apply e).conn k = after at step
  cases step
  rfl

theorem live_stays (allowed : g.Allows e) {i : Nat} {id : Ident} (live : g.conn k = .live i id) :
    (∃ id, (g.apply e).conn k = .live i id) ∨ (g.apply e).conn k = .gone := by
  have step := apply_connStep allowed k
  rw [live] at step
  generalize (g.apply e).conn k = after at step
  cases step with
  | same => exact Or.inl ⟨id, rfl⟩
  | closed => exact Or.inr rfl
  | bound | received | appended | wrote => exact Or.inl ⟨_, rfl⟩

end Connections

section Histories

variable {history : List Event}

abbrev after (history : List Event) : Registry := replay Registry.apply .empty history

theorem gone_of_closed (legal : Registry.Legal .empty history) {i k : Nat}
    (closed : .closed i k ∈ history) : (after history).conn k = .gone := by
  revert closed
  refine along_invariant Registry.apply
    (fun past g => .closed i k ∈ past → g.conn k = .gone) legal ?_ ?_
  · intro closed
    cases closed
  · intro past g e _ _ known allowed closed
    rcases List.mem_append.mp closed with old | new
    · exact gone_stays allowed (known old)
    · obtain rfl := List.mem_singleton.mp new
      simp [Registry.apply]

theorem live_registered (legal : Registry.Legal .empty history) {i k : Nat} {id : Ident}
    (live : (after history).conn k = .live i id) : ∃ fd, .registered i ⟨fd, k⟩ ∈ history := by
  revert i id
  refine along_invariant Registry.apply
    (fun past g => ∀ {i id}, g.conn k = .live i id → ∃ fd, .registered i ⟨fd, k⟩ ∈ past) legal ?_ ?_
  · intro i id live
    cases live
  · intro past g e _ _ known allowed i id live
    have step := apply_connStep allowed k
    rw [live] at step
    generalize before : g.conn k = conn at step
    cases step with
    | registered i fd => exact ⟨fd, by simp⟩
    | _ => exact (known before).imp fun fd => List.mem_append_left _

theorem registered_before (legal : Registry.Legal .empty history) {e : Event} {i k : Nat}
    (seen : e ∈ history) (needs : ∀ g : Registry, g.Allows e → ∃ id, g.conn k = .live i id) :
    ∃ fd, .registered i ⟨fd, k⟩ ∈ history := by
  obtain ⟨before, later, rfl⟩ := List.append_of_mem seen
  obtain ⟨id, live⟩ := needs _ (along_at Registry.apply legal)
  obtain ⟨fd, registered⟩ := live_registered ((along_append ..).mp legal).1 live
  exact ⟨fd, List.mem_append_left _ registered⟩

theorem registered_stays (legal : Registry.Legal .empty history) {i k : Nat} {fd : Int}
    (registered : .registered i ⟨fd, k⟩ ∈ history) :
    (∃ id, (after history).conn k = .live i id) ∨ .closed i k ∈ history := by
  revert registered
  refine along_invariant Registry.apply
    (fun past g => .registered i ⟨fd, k⟩ ∈ past →
      (∃ id, g.conn k = .live i id) ∨ .closed i k ∈ past) legal ?_ ?_
  · intro registered
    cases registered
  · intro past g e _ _ known allowed registered
    rcases List.mem_append.mp registered with old | new
    · rcases known old with ⟨id, live⟩ | closed
      · have step := apply_connStep allowed k
        rw [live] at step
        generalize (g.apply e).conn k = conn at step
        cases step with
        | closed => exact .inr (by simp)
        | _ => exact .inl ⟨_, rfl⟩
      · exact .inr (List.mem_append_left _ closed)
    · obtain rfl := List.mem_singleton.mp new
      exact .inl ⟨.fresh, by simp [Registry.apply]⟩

theorem received_home (legal : Registry.Legal .empty history) {i : Nat} {origin : Origin}
    (received : .received i origin ∈ history) :
    (∃ id, (after history).conn origin.sid = .live i id) ∨
      (after history).conn origin.sid = .gone := by
  revert received
  refine along_invariant Registry.apply
    (fun past g => .received i origin ∈ past →
      (∃ id, g.conn origin.sid = .live i id) ∨ g.conn origin.sid = .gone) legal ?_ ?_
  · intro received
    cases received
  · intro past g e _ _ known allowed received
    rcases List.mem_append.mp received with old | new
    · rcases known old with ⟨id, live⟩ | gone
      · exact live_stays allowed live
      · exact Or.inr (gone_stays allowed gone)
    · obtain rfl := List.mem_singleton.mp new
      obtain ⟨id, live, _⟩ := allowed
      exact live_stays (e := .received i origin) ⟨id, live, ‹_›⟩ live

theorem received_same (legal : Registry.Legal .empty history) {i j : Nat} {first second : Origin}
    (taken : .received i first ∈ history) (again : .received j second ∈ history)
    (same : first.sid = second.sid) : i = j := by
  revert i j first second
  refine along_invariant Registry.apply
    (fun past _ => ∀ {i j : Nat} {first second : Origin}, .received i first ∈ past →
      .received j second ∈ past → first.sid = second.sid → i = j) legal ?_ ?_
  · intro i j first second taken
    cases taken
  · rintro past g e before rfl known allowed i j first second taken again same
    have last : ∀ {i j : Nat} {first second : Origin}, .received i first ∈ past →
        (after past).Allows (.received j second) → first.sid = second.sid → i = j := by
      intro i j first second old ⟨id, live, _⟩ same
      rcases received_home before old with ⟨id', live'⟩ | gone
      · rw [same, live] at live'
        exact (Conn.live.inj live').1.symm
      · rw [same, live] at gone
        cases gone
    rcases List.mem_append.mp taken with old | new <;>
      rcases List.mem_append.mp again with old' | new'
    · exact known old old' same
    · obtain rfl := List.mem_singleton.mp new'
      exact last old allowed same
    · obtain rfl := List.mem_singleton.mp new
      exact (last old' allowed same.symm).symm
    · have both := (List.mem_singleton.mp new).trans (List.mem_singleton.mp new').symm
      exact (Event.received.inj both).1

def receivedNumbers (k : Nat) : List Event → List Nat :=
  List.filterMap fun | .received _ o => if o.sid = k then some o.num else none | _ => none

def Conn.Counts (nums : List Nat) : Conn → Prop
  | .live _ id => nums = List.range id.popped
  | .gone => ∃ n, nums = List.range n
  | _ => nums = []

theorem ConnStep.counts {k : Nat} {e : Event} {c next : Conn} (step : ConnStep k e c next)
    {nums : List Nat} (counts : c.Counts nums) : next.Counts (nums ++ receivedNumbers k [e]) := by
  cases step with
  | same _ _ other =>
      have silent : receivedNumbers k [e] = [] := by
        cases e with
        | received i o =>
            have apart : o.sid ≠ k := fun same => other (congrArg some same)
            simp [receivedNumbers, apart]
        | _ => rfl
      rw [silent, List.append_nil]
      exact counts
  | received i id frame authed =>
      rw [show nums = _ from counts]
      simp [receivedNumbers, Conn.Counts, List.range_succ]
  | refused => exact ⟨0, (List.append_nil nums).trans counts⟩
  | closed i id => exact ⟨id.popped, (List.append_nil nums).trans counts⟩
  | _ => exact (List.append_nil nums).trans counts

theorem numbers_count (legal : Registry.Legal .empty history) (k : Nat) :
    ((after history).conn k).Counts (receivedNumbers k history) := by
  refine along_invariant Registry.apply
    (fun past g => (g.conn k).Counts (receivedNumbers k past)) legal rfl ?_
  intro past g e _ _ counts allowed
  have next := (apply_connStep allowed k).counts counts
  rwa [receivedNumbers, ← List.filterMap_append, ← receivedNumbers] at next

theorem numbers_range (legal : Registry.Legal .empty history) (k : Nat) :
    ∃ n, receivedNumbers k history = List.range n := by
  have counts := numbers_count legal k
  generalize (after history).conn k = conn at counts
  cases conn with
  | live i id => exact ⟨id.popped, counts⟩
  | gone => exact counts
  | _ => exact ⟨0, counts⟩

def appendedBytes (k : Nat) : List Event → Wire.Bytes :=
  List.flatMap fun | .appended _ sid data => if sid = k then data else [] | _ => []

def writtenBytes (k : Nat) : List Event → Wire.Bytes :=
  List.flatMap fun | .wrote _ sid data => if sid = k then data else [] | _ => []

def Conn.Streams (appended written : Wire.Bytes) : Conn → Prop
  | .live _ id => appended = written ++ id.out
  | .gone => written <+: appended
  | _ => appended = [] ∧ written = []

theorem ConnStep.streams {k : Nat} {e : Event} {c next : Conn} (step : ConnStep k e c next)
    {appended written : Wire.Bytes} (streams : c.Streams appended written) :
    next.Streams (appended ++ appendedBytes k [e]) (written ++ writtenBytes k [e]) := by
  cases step with
  | same _ _ other =>
      have silent : appendedBytes k [e] = [] ∧ writtenBytes k [e] = [] := by
        cases e with
        | appended i sid data =>
            have apart : sid ≠ k := fun same => other (congrArg some same)
            simp [appendedBytes, writtenBytes, apart]
        | wrote i sid data =>
            have apart : sid ≠ k := fun same => other (congrArg some same)
            simp [appendedBytes, writtenBytes, apart]
        | _ => exact ⟨rfl, rfl⟩
      rw [silent.1, silent.2, List.append_nil, List.append_nil]
      exact streams
  | refused =>
      obtain ⟨rfl, rfl⟩ := streams
      exact List.prefix_rfl
  | registered i fd =>
      obtain ⟨rfl, rfl⟩ := streams
      rfl
  | closed i id =>
      obtain rfl := streams
      simp [appendedBytes, writtenBytes, Conn.Streams]
  | appended i id data =>
      obtain rfl := streams
      simp [appendedBytes, writtenBytes, Conn.Streams]
  | wrote i id data front =>
      obtain ⟨left, whole⟩ := front
      obtain rfl := streams
      simp [appendedBytes, writtenBytes, Conn.Streams, ← whole]
  | _ =>
      rw [show appendedBytes k [_] = [] from rfl, show writtenBytes k [_] = [] from rfl,
        List.append_nil, List.append_nil]
      exact streams

theorem stream_kept (legal : Registry.Legal .empty history) (k : Nat) :
    ((after history).conn k).Streams (appendedBytes k history) (writtenBytes k history) := by
  refine along_invariant Registry.apply
    (fun past g => (g.conn k).Streams (appendedBytes k past) (writtenBytes k past)) legal
    ⟨rfl, rfl⟩ ?_
  intro past g e _ _ streams allowed
  have next := (apply_connStep allowed k).streams streams
  rwa [appendedBytes, ← List.flatMap_append, ← appendedBytes, writtenBytes,
    ← List.flatMap_append, ← writtenBytes] at next

theorem authed_bound (legal : Registry.Legal .empty history) {i k : Nat} {id : Ident}
    (live : (after history).conn k = .live i id) :
    (id.authed = true → ∃ gid, .bound i k gid id.nid ∈ history) ∧
      (id.authed = false → id.nid = 0) := by
  revert i id
  refine along_invariant Registry.apply
    (fun past g => ∀ {i id}, g.conn k = .live i id →
      (id.authed = true → ∃ gid, .bound i k gid id.nid ∈ past) ∧
        (id.authed = false → id.nid = 0)) legal ?_ ?_
  · intro i id live
    cases live
  · intro past g e _ _ known allowed i id live
    have step := apply_connStep allowed k
    rw [live] at step
    generalize before : g.conn k = conn at step
    cases step with
    | same =>
        obtain ⟨bound, zero⟩ := known before
        exact ⟨fun authed => (bound authed).imp fun _ => List.mem_append_left _, zero⟩
    | registered => exact ⟨fun authed => (by cases authed), fun _ => rfl⟩
    | bound i id gid nid => exact ⟨fun _ => ⟨gid, by simp⟩, fun no => (by cases no)⟩
    | received | appended | wrote =>
        obtain ⟨bound, zero⟩ := known before
        exact ⟨fun authed => (bound authed).imp fun _ => List.mem_append_left _, zero⟩

theorem authed_since (legal : Registry.Legal .empty history) {i k : Nat} {id : Ident}
    (live : (after history).conn k = .live i id) (authed : id.authed = true) :
    Since (fun e => ∃ i gid nid, e = .bound i k gid nid) (fun e => ∃ i, e = .closed i k)
      history := by
  obtain ⟨gid, bound⟩ := (authed_bound legal live).1 authed
  obtain ⟨before, later, rfl⟩ := List.append_of_mem bound
  refine ⟨before, _, later, rfl, ⟨i, gid, id.nid, rfl⟩, ?_⟩
  rintro x member ⟨j, rfl⟩
  have gone := gone_of_closed legal (List.mem_append_right before (List.mem_cons_of_mem _ member))
  rw [live] at gone
  cases gone

end Histories

section Routers

variable {history : List Event}

theorem apply_route {g : Registry} {e : Event} {nid : UInt32} {route : NidRoute}
    (found : (g.apply e).router.nidMap nid = some route) :
    (∃ (i : Nat) (gid : UInt32), e = .bound i route.sid gid nid ∧ route.reactorIdx = i) ∨
      g.router.nidMap nid = some route ∧ ∀ i sid gid, e ≠ .bound i sid gid nid := by
  cases e with
  | bound i sid gid n =>
      simp only [Registry.apply, Router.bindNid_nidMap] at found
      split at found
      · rename_i same
        subst same
        obtain rfl := Option.some.inj found
        exact Or.inl ⟨i, gid, rfl, rfl⟩
      · rename_i different
        refine Or.inr ⟨found, ?_⟩
        rintro j other gid' same
        exact different (Event.bound.inj same).2.2.2.symm
  | closed i sid =>
      refine Or.inr ⟨?_, nofun⟩
      simp only [Registry.apply, Registry.routerAfter] at found
      split at found
      · split at found
        · exact (Router.removeSession_route found).1
        · exact found
      · exact found
  | unsubscribed cmd sid =>
      refine Or.inr ⟨?_, nofun⟩
      rwa [Registry.apply, Router.unsubscribe_nidMap] at found
  | _ => exact Or.inr ⟨found, nofun⟩

theorem route_stays {g : Registry} {e : Event} {nid : UInt32} {route : NidRoute}
    (found : g.router.nidMap nid = some route) (notClosed : ∀ i, e ≠ .closed i route.sid)
    (notBound : ∀ i sid gid, e ≠ .bound i sid gid nid) :
    (g.apply e).router.nidMap nid = some route := by
  cases e with
  | bound i sid gid n =>
      have different : nid ≠ n := by
        rintro rfl
        exact notBound i sid gid rfl
      rw [Registry.apply, Router.bindNid_nidMap, if_neg different]
      exact found
  | closed i sid =>
      have other : route.sid ≠ sid := by
        rintro rfl
        exact notClosed i rfl
      simp only [Registry.apply, Registry.routerAfter]
      split
      · split
        · rw [Router.removeSession_nidMap, if_neg]
          · exact found
          · rintro ⟨rfl, there, same, holder⟩
            rw [found] at same
            exact other (Option.some.inj same ▸ holder)
        · exact found
      · exact found
  | unsubscribed cmd sid =>
      rw [Registry.apply, Router.unsubscribe_nidMap]
      exact found
  | _ => exact found

theorem route_since (legal : Registry.Legal .empty history) {nid : UInt32} {route : NidRoute}
    (found : (after history).router.nidMap nid = some route) :
    Since (fun e => ∃ (i : Nat) (gid : UInt32), e = .bound i route.sid gid nid ∧
        route.reactorIdx = i)
      (fun e => ∃ i sid gid, e = .bound i sid gid nid) history := by
  revert route
  refine along_invariant Registry.apply
    (fun past g => ∀ {route : NidRoute}, g.router.nidMap nid = some route →
      Since (fun e => ∃ (i : Nat) (gid : UInt32), e = .bound i route.sid gid nid ∧
          route.reactorIdx = i)
        (fun e => ∃ i sid gid, e = .bound i sid gid nid) past) legal ?_ ?_
  · intro route found
    cases found
  · intro past g e _ _ known allowed route found
    rcases apply_route found with now | ⟨old, other⟩
    · exact since_now now
    · refine since_still (known old) ?_
      rintro ⟨i, sid, gid, same⟩
      exact other i sid gid same

theorem apply_subscriber {g : Registry} {e : Event} {cmd : UInt32} {sub : Subscriber}
    (member : sub ∈ (g.apply e).router.findSubscribers cmd) :
    e = .subscribed cmd sub ∨ sub ∈ g.router.findSubscribers cmd ∧ e ≠ .unsubscribed cmd sub.sid ∧
      ∀ i j id, e = .closed i sub.sid → g.conn sub.sid = .live j id → id.authed = false := by
  cases e with
  | subscribed c new =>
      rcases Router.mem_subscribe member with ⟨rfl, rfl⟩ | old
      · exact Or.inl rfl
      · exact Or.inr ⟨old, nofun, nofun⟩
  | unsubscribed c sid =>
      obtain ⟨old, other⟩ := Router.mem_unsubscribe member
      refine Or.inr ⟨old, ?_, nofun⟩
      intro same
      obtain ⟨rfl, rfl⟩ := Event.unsubscribed.inj same
      exact other rfl rfl
  | closed i sid =>
      simp only [Registry.apply] at member
      cases was : g.conn sid with
      | live j id =>
          rw [was, Registry.routerAfter] at member
          split at member
          · obtain ⟨old, other⟩ := Router.mem_removeSession member
            refine Or.inr ⟨old, nofun, ?_⟩
            intro _ _ _ same
            exact absurd (Event.closed.inj same).2.symm other
          · rename_i unauthed
            refine Or.inr ⟨member, nofun, ?_⟩
            intro _ _ id' same live
            rw [← (Event.closed.inj same).2, was] at live
            rw [← (Conn.live.inj live).2]
            simpa using unauthed
      | _ =>
          rw [was] at member
          refine Or.inr ⟨member, nofun, ?_⟩
          intro _ _ _ same live
          rw [← (Event.closed.inj same).2, was] at live
          cases live
  | _ =>
      exact Or.inr ⟨member, nofun, nofun⟩

theorem subscriber_live (legal : Registry.Legal .empty history) {cmd : UInt32} {sub : Subscriber}
    (member : sub ∈ (after history).router.findSubscribers cmd) :
    ∃ (i : Nat) (id : Ident), (after history).conn sub.sid = .live i id ∧ id.authed = true ∧
      sub.reactorIdx = i := by
  revert cmd sub
  refine along_invariant Registry.apply
    (fun past g => ∀ {cmd : UInt32} {sub : Subscriber}, sub ∈ g.router.findSubscribers cmd →
      ∃ (i : Nat) (id : Ident), g.conn sub.sid = .live i id ∧ id.authed = true ∧
        sub.reactorIdx = i) legal ?_ ?_
  · intro cmd sub member
    cases member
  · intro past g e _ _ known allowed cmd sub member
    rcases apply_subscriber member with rfl | ⟨old, _, notClosed⟩
    · obtain ⟨i, id, live, authed, _, _, reactor⟩ := allowed
      exact ⟨i, id, live, authed, reactor⟩
    · obtain ⟨i, id, live, authed, reactor⟩ := known old
      have step := apply_connStep allowed sub.sid
      rw [live] at step
      generalize (g.apply e).conn sub.sid = conn at step
      cases step with
      | same => exact ⟨i, id, rfl, authed, reactor⟩
      | closed =>
          rw [notClosed i i id rfl live] at authed
          cases authed
      | bound => exact ⟨i, _, rfl, rfl, reactor⟩
      | received | appended | wrote => exact ⟨i, _, rfl, authed, reactor⟩

theorem subscriber_since (legal : Registry.Legal .empty history) {cmd : UInt32} {sub : Subscriber}
    (member : sub ∈ (after history).router.findSubscribers cmd) :
    Since (fun e => e = .subscribed cmd sub)
      (fun e => e = .unsubscribed cmd sub.sid ∨ ∃ i, e = .closed i sub.sid) history := by
  revert sub
  refine along_invariant Registry.apply
    (fun past g => ∀ {sub : Subscriber}, sub ∈ g.router.findSubscribers cmd →
      Since (fun e => e = .subscribed cmd sub)
        (fun e => e = .unsubscribed cmd sub.sid ∨ ∃ i, e = .closed i sub.sid) past) legal ?_ ?_
  · intro sub member
    cases member
  · rintro past g e before rfl known allowed sub member
    rcases apply_subscriber member with now | ⟨old, notUnsubscribed, notClosed⟩
    · exact since_now now
    · refine since_still (known old) ?_
      rintro (rfl | ⟨i, rfl⟩)
      · exact notUnsubscribed rfl
      · obtain ⟨j, id, live, authed, _⟩ := subscriber_live before old
        rw [notClosed i j id rfl live] at authed
        cases authed

theorem router_unique (legal : Registry.Legal .empty history) : (after history).router.Unique := by
  refine along_invariant Registry.apply (fun _ g => g.router.Unique) legal Router.unique_empty ?_
  intro past g e _ _ unique _
  cases e with
  | closed i sid =>
      simp only [Registry.apply, Registry.routerAfter]
      split
      · split
        · exact unique.removeSession _ _
        · exact unique
      · exact unique
  | bound i sid gid nid => exact unique.bindNid nid sid i
  | subscribed cmd sub => exact unique.subscribe cmd sub
  | unsubscribed cmd sid => exact unique.unsubscribe cmd sid
  | _ => exact unique

end Routers

end HiImCore.Hub
