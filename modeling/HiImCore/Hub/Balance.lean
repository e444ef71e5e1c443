import HiImCore.Hub.Intake
import Mathlib.Data.Int.CardIntervalMod

/-! `PickReactor` deals the connections of both planes out in turn, by one counter. -/

namespace HiImCore.Hub

open Replay Transition

theorem countP_le_count {α : Type} (P : α → Bool) (turn : Nat → Prop) [DecidablePred turn]
    (values : List α) (places : ∀ j x, values[j]? = some x → P x = true → turn j) :
    values.countP P ≤ Nat.count turn values.length := by
  induction values using List.reverseRecOn with
  | nil => exact Nat.zero_le _
  | append_singleton values last ih =>
      have before : values.countP P ≤ Nat.count turn values.length := by
        refine ih fun j x found => places j x ?_
        rw [List.getElem?_append_left (List.getElem?_eq_some_iff.mp found).1]
        exact found
      rw [List.countP_append, List.countP_singleton, List.length_append, List.length_singleton,
        Nat.count_succ]
      cases holds : P last with
      | false =>
          simp only [Bool.false_eq_true, if_false]
          omega
      | true =>
          have here := places values.length last (by simp) holds
          simp only [if_true, here]
          omega

section Steps

variable {cfg : HubConfig} {h post : HubServer} {act : Action} {entries : List Entry}

/-- The connections accepted on either plane, in order. -/
def accepts (history : List Entry) : List (Plane × NewConnection) :=
  history.filterMap fun
    | (p, .accepted fd sid) => some (p, ⟨fd, sid⟩)
    | _ => none

/-- The connections of either plane in the order in which `PickReactor` counted them. -/
def picks (history : List Entry) : List (Plane × NewConnection) :=
  history.filterMap fun
    | (p, .picked conn) => some (p, conn)
    | _ => none

/-- What `PickReactor` returns to its call number `n`. -/
def turnOf (cfg : HubConfig) (n : Nat) : Nat := n % UInt64.size % cfg.reactors

def Listener.picking : Listener → Option NewConnection
  | .pick conn => some conn
  | _ => none

def KeepsPushes (h post : HubServer) : Prop :=
  ∀ q idx conn, (post.plane q).listener = .push idx conn → (h.plane q).listener = .push idx conn

def Event.deals : Event → Bool
  | .accepted .. | .picked _ | .queued .. => true
  | _ => false

/-- What a step of the hub has to do with the dealing. -/
inductive Deals (cfg : HubConfig) (h : HubServer) : HubServer → List Entry → Prop
  | accepted {p : Plane} {fd : Int} {post : HubServer} (round : post.round = h.round)
      (free : (h.plane p).listener.picking = none)
      (picking : ∀ q, (post.plane q).listener.picking =
        if q = p then some ⟨fd, (h.plane p).nextSid⟩ else (h.plane q).listener.picking)
      (pushes : KeepsPushes h post) :
      Deals cfg h post [(p, .accepted fd (h.plane p).nextSid)]
  | picked {p : Plane} {conn : NewConnection} {post : HubServer} (round : post.round = h.round + 1)
      (was : (h.plane p).listener.picking = some conn)
      (picking : ∀ q, (post.plane q).listener.picking =
        if q = p then none else (h.plane q).listener.picking)
      (pushes : ∀ q idx other, (post.plane q).listener = .push idx other →
        q = p ∧ idx = pickReactor cfg h.round ∧ other = conn ∨
          (h.plane q).listener = .push idx other) :
      Deals cfg h post [(p, .picked conn)]
  | queued {p : Plane} {idx : Int} {conn : NewConnection} {i : Nat} {post : HubServer}
      (was : (h.plane p).listener = .push idx conn) (index : queueIndex cfg.reactors idx = some i)
      (round : post.round = h.round)
      (picking : ∀ q, (post.plane q).listener.picking = (h.plane q).listener.picking)
      (pushes : KeepsPushes h post) : Deals cfg h post [(p, .queued i conn)]
  | other {post : HubServer} {entries : List Entry} (round : post.round = h.round)
      (picking : ∀ q, (post.plane q).listener.picking = (h.plane q).listener.picking)
      (pushes : KeepsPushes h post) (silent : ∀ e ∈ entries, e.2.deals = false) :
      Deals cfg h post entries

theorem silent_of_role {role : Role} {e : Event} (recorded : e.isBy role = true)
    (other : role ≠ .listener) : e.deals = false := by
  cases e with
  | accepted | picked | queued => exact absurd (Event.role_of_isBy recorded rfl).symm other
  | _ => rfl

section Listening

variable {p : Plane} {pl : PlaneState}

theorem picking_setPlane (q : Plane) : ((h.setPlane p pl).plane q).listener.picking =
    if q = p then pl.listener.picking else (h.plane q).listener.picking := by
  by_cases same : q = p
  · subst same
    rw [HubServer.setPlane_self, if_pos rfl]
  · rw [HubServer.setPlane_other h pl same, if_neg same]

theorem picking_kept (same : pl.listener.picking = (h.plane p).listener.picking) (q : Plane) :
    ((h.setPlane p pl).plane q).listener.picking = (h.plane q).listener.picking :=
  HubServer.forall_setPlane
    (P := fun q pl => pl.listener.picking = (h.plane q).listener.picking) same (fun _ => rfl) q

theorem keepsPushes_setPlane
    (quiet : ∀ idx conn, pl.listener = .push idx conn → (h.plane p).listener = .push idx conn) :
    KeepsPushes h (h.setPlane p pl) :=
  HubServer.forall_setPlane (P := fun q pl => ∀ idx conn, pl.listener = .push idx conn →
    (h.plane q).listener = .push idx conn) quiet fun _ _ _ pushing => pushing

theorem counted_eq (free : (h.plane p).listener.picking = none) : h.counted p = h := by
  unfold HubServer.counted
  generalize (h.plane p).listener = l at free ⊢
  cases l with
  | pick conn => cases free
  | _ => rfl

theorem picking_eq {l : Listener} (was : (h.plane p).listener = l) :
    (h.plane p).listener.picking = l.picking := by
  rw [was]

theorem Deals.uncounted (deals : Deals cfg h (h.setPlane p pl) entries)
    (free : (h.plane p).listener.picking = none) :
    Deals cfg h ((h.counted p).setPlane p pl) entries := by
  rw [counted_eq free]
  exact deals

theorem counted_round {conn : NewConnection} (was : (h.plane p).listener = .pick conn) :
    (h.counted p).round = h.round + 1 := by
  simp only [HubServer.counted, was, Listener.counts, if_true]

theorem deals_aside {events : List Event} {role : Role}
    (same : pl.listener = (h.plane p).listener) (recorded : ∀ e ∈ events, e.isBy role = true)
    (other : role ≠ .listener) : Deals cfg h (h.setPlane p pl) (events.map (Prod.mk p)) := by
  refine .other rfl (picking_kept (congrArg _ same)) (keepsPushes_setPlane ?_) ?_
  · intro idx conn pushing
    rw [← same]
    exact pushing
  · intro e member
    obtain ⟨event, inside, rfl⟩ := List.mem_map.mp member
    exact silent_of_role (recorded event inside) other

theorem again_picking (pl : PlaneState) : pl.again.picking = none := by
  rcases pl.again_eq with more | done
  · rw [more]; rfl
  · rw [done]; rfl

theorem deals_resumed {events : List Event} (free : (h.plane p).listener.picking = none)
    (resumed : pl.listener = (h.plane p).again) (silent : ∀ e ∈ events, e.deals = false) :
    Deals cfg h (h.setPlane p pl) (events.map (Prod.mk p)) := by
  refine .other rfl (picking_kept ?_) (keepsPushes_setPlane ?_) ?_
  · rw [resumed, again_picking, free]
  · intro idx conn pushing
    rw [resumed] at pushing
    exact absurd pushing (again_ne_push _ idx conn)
  · intro e member
    obtain ⟨event, inside, rfl⟩ := List.mem_map.mp member
    exact silent event inside

theorem Accepts.deals {fd : Int} {events : List Event} (accepts : Accepts fd (h.plane p) pl events) :
    Deals cfg h (h.setPlane p pl) (events.map (Prod.mk p)) := by
  cases accepts with
  | taken was =>
      refine .accepted rfl (picking_eq was) picking_setPlane (keepsPushes_setPlane ?_)
      intro idx conn pushing
      cases pushing
  | blocking was => exact deals_resumed (picking_eq was) rfl (by simp)

theorem Listens.deals {events : List Event} (listens : Listens cfg h.round (h.plane p) pl events) :
    Deals cfg h ((h.counted p).setPlane p pl) (events.map (Prod.mk p)) := by
  cases listens with
  | failed was =>
      have free := picking_eq was
      exact (deals_resumed free rfl (by simp)).uncounted free
  | @picked conn was =>
      refine .picked (counted_round was) (picking_eq was) picking_setPlane ?_
      refine HubServer.forall_setPlane (h := h) (P := fun q pl => ∀ idx other,
        pl.listener = .push idx other → q = p ∧ idx = pickReactor cfg h.round ∧ other = conn ∨
          (h.plane q).listener = .push idx other) ?_ ?_
      · intro idx other pushing
        cases pushing
        exact .inl ⟨rfl, rfl, rfl⟩
      · exact fun q idx other pushing => .inr pushing
  | outOfRange was index =>
      refine Deals.uncounted ?_ (picking_eq was)
      exact .other rfl (picking_kept rfl) (keepsPushes_setPlane fun _ _ pushing => pushing)
        (by simp [Event.deals])
  | refused was =>
      have free := picking_eq was
      exact (deals_resumed free rfl (by simp [Event.deals])).uncounted free
  | queued was index room =>
      have free := picking_eq was
      refine Deals.uncounted ?_ free
      refine .queued was index rfl (picking_kept free.symm) (keepsPushes_setPlane ?_)
      intro idx conn pushing
      cases pushing
  | notified was =>
      have free := picking_eq was
      exact (deals_resumed free rfl (by simp)).uncounted free

end Listening

theorem hubStep_deals {g : Plane → Registry} (shaped : h.Shaped)
    (agrees : ∀ p, Agrees (g p) (h.plane p).core) (step : hubStep cfg h act = some (post, entries)) :
    Deals cfg h post entries := by
  unfold hubStep at step
  split at step
  · cases step
  · cases act with
    | accept p fd nonBlocking =>
        dsimp only at step
        split at step
        · obtain ⟨pl, events, done, rfl, rfl⟩ := localStep_some step
          exact (acceptStep_accepts done).deals
        · cases step
    | listener p =>
        obtain ⟨pl, events, done, rfl, rfl⟩ := localStep_some step
        exact (listenerStep_listens done).deals
    | reactor p i input =>
        dsimp only at step
        split at step
        · obtain ⟨pl, events, done, rfl, rfl⟩ := localStep_some step
          have recorded := (reactorStep_moves (shaped p) done).effect.by_reactor
          refine deals_aside ?_ recorded (by decide)
          obtain ⟨task, rest, _, _, ⟨mid, calls, turn, rfl⟩ | rfl⟩ := reactorStep_turns (agrees p) done
          · exact turn.listener.1
          · rfl
        · cases step
    | worker p w =>
        dsimp only at step
        split at step
        · obtain ⟨s, done, same⟩ := Option.map_eq_some_iff.mp step
          cases same
          have recorded := (workerStep_effect done).by_worker
          have listener := @HubServer.forall_setPlanes h p
            { h.plane p with
              worker := Function.update (h.plane p).worker w s.worker
              recvQueue := Function.update (h.plane p).recvQueue w s.recvQueue }
            { h.plane p.peer with distQueue := s.distQueue }
            (fun q pl => pl.listener = (h.plane q).listener) rfl rfl
          refine .other rfl ?_ ?_ ?_
          · exact fun q => congrArg _ (listener q)
          · intro q idx conn pushing
            rw [← listener q]
            exact pushing
          · intro e member
            have inside : e.2 ∈ s.own ++ s.peer := by
              rcases List.mem_append.mp member with own | peer
              · obtain ⟨event, found, rfl⟩ := List.mem_map.mp own
                exact List.mem_append_left _ found
              · obtain ⟨event, found, rfl⟩ := List.mem_map.mp peer
                exact List.mem_append_right _ found
            exact silent_of_role (recorded e.2 inside) (by decide)
        · cases step
    | distributor p =>
        obtain ⟨pl, events, done, rfl, rfl⟩ := localStep_some step
        exact deals_aside (distributorStep_apart done).listener
          (distributorStep_effect done).by_distributor (by decide)
    | stop p =>
        obtain ⟨pl, events, done, rfl, rfl⟩ := localStep_some step
        cases done
        exact @deals_aside cfg h p _ [] .reactor rfl (by simp) (by decide)

end Steps

def pairConfig (queueCapacity : Nat) : HubConfig := ⟨2, 1, queueCapacity, [], []⟩

def pairWakeFd : Plane → Nat → Int
  | .kForward, i => (i % 2 : Nat)
  | .kBackend, i => 2 + (i % 2 : Nat)

section Runs

variable {cfg : HubConfig} {wakeFd : Plane → Nat → Int}
  {taken : List (Taken HubServer Action Entry)} {h : HubServer}

theorem accepted_born {events : List Event} {fd : Int} {k : Nat}
    (legal : Registry.Legal .empty events) (seen : .accepted fd k ∈ events) :
    (replay Registry.apply .empty events).conn k ≠ .unborn := by
  refine along_invariant Registry.apply
    (fun past g => .accepted fd k ∈ past → g.conn k ≠ .unborn) legal
    (fun never => absurd never List.not_mem_nil) ?_ seen
  intro past g e _ _ before allowed member unborn
  have step := apply_connStep allowed k
  rw [unborn] at step
  generalize start : g.conn k = state at step
  cases step with
  | same e c other =>
      rcases List.mem_append.mp member with early | late
      · exact before early start
      · obtain rfl := List.mem_singleton.mp late
        exact other rfl

theorem accepts_append (first second : List Entry) :
    accepts (first ++ second) = accepts first ++ accepts second := List.filterMap_append

theorem picks_append (first second : List Entry) :
    picks (first ++ second) = picks first ++ picks second := List.filterMap_append

theorem mem_accepts {history : List Entry} {p : Plane} {conn : NewConnection} :
    (p, conn) ∈ accepts history ↔ (p, .accepted conn.fd conn.sid) ∈ history := by
  simp only [accepts, List.mem_filterMap]
  constructor
  · rintro ⟨⟨q, e⟩, member, found⟩
    cases e with
    | accepted fd sid =>
        obtain ⟨rfl, rfl⟩ := Prod.mk.inj (Option.some.inj found)
        exact member
    | _ => cases found
  · intro member
    exact ⟨_, member, rfl⟩

theorem accepts_silent {entries : List Entry} (silent : ∀ e ∈ entries, e.2.deals = false) :
    accepts entries = [] := by
  refine List.filterMap_eq_nil_iff.mpr ?_
  rintro ⟨q, e⟩ member
  cases e with
  | accepted fd sid => cases silent _ member
  | _ => rfl

theorem picks_silent {entries : List Entry} (silent : ∀ e ∈ entries, e.2.deals = false) :
    picks entries = [] := by
  refine List.filterMap_eq_nil_iff.mpr ?_
  rintro ⟨q, e⟩ member
  cases e with
  | picked conn => cases silent _ member
  | _ => rfl

def ofPlane (q : Plane) (conns : List (Plane × NewConnection)) : List NewConnection :=
  conns.filterMap fun c => if c.1 = q then some c.2 else none

theorem ofPlane_concat (q p : Plane) (conns : List (Plane × NewConnection)) (conn : NewConnection) :
    ofPlane q (conns ++ [(p, conn)]) = ofPlane q conns ++ if q = p then [conn] else [] := by
  unfold ofPlane
  rw [List.filterMap_append]
  by_cases same : q = p
  · subst same
    simp
  · simp [same, Ne.symm same]

theorem ofPlane_nodup {conns : List (Plane × NewConnection)} (once : conns.Nodup) (q : Plane) :
    (ofPlane q conns).Nodup := by
  refine once.filterMap ?_
  rintro ⟨first, conn⟩ ⟨second, other⟩ value here there
  simp only [Option.mem_def, Option.ite_none_right_eq_some, Option.some.injEq] at here there
  obtain ⟨rfl, rfl⟩ := here
  obtain ⟨rfl, rfl⟩ := there
  rfl

theorem nodup_of_planes {conns : List (Plane × NewConnection)}
    (each : ∀ q, (ofPlane q conns).Nodup) : conns.Nodup := by
  induction conns with
  | nil => exact List.nodup_nil
  | cons first rest ih =>
      obtain ⟨p, conn⟩ := first
      refine List.nodup_cons.mpr ⟨?_, ih fun q => ?_⟩
      · intro again
        have own := each p
        simp only [ofPlane, List.filterMap_cons, if_true, List.nodup_cons] at own
        exact own.1 (List.mem_filterMap.mpr ⟨_, again, if_pos rfl⟩)
      · have whole := each q
        simp only [ofPlane, List.filterMap_cons] at whole
        split at whole
        · exact whole
        · exact (List.nodup_cons.mp whole).2

/-- The connection took number `j` from the counter, and its reactor is the one of that turn. -/
def DealtTo (cfg : HubConfig) (history : List Entry) (p : Plane) (conn : NewConnection) (i : Nat) :
    Prop :=
  ∃ j, (picks history)[j]? = some (p, conn) ∧ i = turnOf cfg j

theorem DealtTo.mono {history : List Entry} {p : Plane} {conn : NewConnection} {i : Nat}
    (dealt : DealtTo cfg history p conn i) (more : List Entry) :
    DealtTo cfg (history ++ more) p conn i := by
  obtain ⟨j, found, turn⟩ := dealt
  refine ⟨j, ?_, turn⟩
  rw [picks_append, List.getElem?_append_left (List.getElem?_eq_some_iff.mp found).1]
  exact found

/-- The counter counts the connections, and every connection goes where it counts. -/
structure Dealt (cfg : HubConfig) (history : List Entry) (h : HubServer) : Prop where
  round : h.round.toNat = (picks history).length % UInt64.size
  pending : ∀ q idx conn, (h.plane q).listener = .push idx conn →
    ∃ i : Nat, idx = i ∧ DealtTo cfg history q conn i
  queued : ∀ q i conn, (q, .queued i conn) ∈ history → DealtTo cfg history q conn i
  order : ∀ q, ofPlane q (accepts history) =
    ofPlane q (picks history) ++ (h.plane q).listener.picking.toList
  accepted : (accepts history).Nodup

section Dealing

variable {history entries : List Entry} {post : HubServer}

theorem Dealt.counted_once (dealt : Dealt cfg history h) : (picks history).Nodup := by
  refine nodup_of_planes fun q => ?_
  have whole := ofPlane_nodup dealt.accepted q
  rw [dealt.order q] at whole
  exact (List.nodup_append.mp whole).1

theorem Dealt.keepsPushes (dealt : Dealt cfg history h) (pushes : KeepsPushes h post) (q : Plane)
    (idx : Int) (conn : NewConnection) (pushing : (post.plane q).listener = .push idx conn) :
    ∃ i : Nat, idx = i ∧ DealtTo cfg (history ++ entries) q conn i := by
  obtain ⟨i, index, before⟩ := dealt.pending q idx conn (pushes q idx conn pushing)
  exact ⟨i, index, before.mono entries⟩

theorem Dealt.queued_before (dealt : Dealt cfg history h)
    (none : ∀ q i conn, (q, .queued i conn) ∉ entries) (q : Plane) (i : Nat) (conn : NewConnection)
    (member : (q, .queued i conn) ∈ history ++ entries) :
    DealtTo cfg (history ++ entries) q conn i := by
  rcases List.mem_append.mp member with early | late
  · exact (dealt.queued q i conn early).mono entries
  · exact absurd late (none q i conn)

theorem Dealt.accept {p : Plane} {fd : Int} (dealt : Dealt cfg history h)
    (unborn : ∀ q conn, (q, conn) ∈ accepts history → conn.sid ≠ (h.plane q).nextSid)
    (round : post.round = h.round) (free : (h.plane p).listener.picking = none)
    (picking : ∀ q, (post.plane q).listener.picking =
      if q = p then some ⟨fd, (h.plane p).nextSid⟩ else (h.plane q).listener.picking)
    (pushes : KeepsPushes h post) :
    Dealt cfg (history ++ [(p, .accepted fd (h.plane p).nextSid)]) post := by
  have added : accepts (history ++ [(p, .accepted fd (h.plane p).nextSid)]) =
      accepts history ++ [(p, ⟨fd, (h.plane p).nextSid⟩)] := accepts_append ..
  have same : picks (history ++ [(p, .accepted fd (h.plane p).nextSid)]) = picks history :=
    (picks_append ..).trans (List.append_nil _)
  refine ⟨?_, dealt.keepsPushes pushes, dealt.queued_before (by simp), ?_, ?_⟩
  · rw [round, same]
    exact dealt.round
  · intro q
    rw [added, same, ofPlane_concat, dealt.order q, picking q]
    split
    · rename_i here
      rw [here, free]
      simp
    · simp
  · rw [added, List.nodup_append]
    refine ⟨dealt.accepted, List.nodup_singleton _, ?_⟩
    rintro ⟨q, conn⟩ earlier _ last rfl
    cases List.mem_singleton.mp last
    exact unborn _ _ earlier rfl

theorem Dealt.pick {p : Plane} {conn : NewConnection} (dealt : Dealt cfg history h)
    (round : post.round = h.round + 1) (was : (h.plane p).listener.picking = some conn)
    (picking : ∀ q, (post.plane q).listener.picking =
      if q = p then none else (h.plane q).listener.picking)
    (pushes : ∀ q idx other, (post.plane q).listener = .push idx other →
      q = p ∧ idx = pickReactor cfg h.round ∧ other = conn ∨
        (h.plane q).listener = .push idx other) :
    Dealt cfg (history ++ [(p, .picked conn)]) post := by
  have same : accepts (history ++ [(p, .picked conn)]) = accepts history :=
    (accepts_append ..).trans (List.append_nil _)
  have added : picks (history ++ [(p, .picked conn)]) = picks history ++ [(p, conn)] :=
    picks_append ..
  refine ⟨?_, ?_, dealt.queued_before (by simp), ?_, ?_⟩
  · -- the counter wraps where the number of picks is taken modulo `2 ^ 64`
    rw [round, added, UInt64.toNat_add, dealt.round, List.length_append, List.length_singleton]
    exact Nat.mod_add_mod ..
  · intro q idx other pushing
    rcases pushes q idx other pushing with ⟨rfl, rfl, rfl⟩ | still
    · refine ⟨_, rfl, (picks history).length, ?_, ?_⟩
      · rw [added, List.getElem?_concat_length]
      · rw [dealt.round, turnOf]
    · obtain ⟨i, index, before⟩ := dealt.pending q idx other still
      exact ⟨i, index, before.mono _⟩
  · intro q
    rw [added, same, ofPlane_concat, dealt.order q, picking q]
    split
    · rename_i here
      rw [here, was]
      simp
    · simp
  · rw [same]
    exact dealt.accepted

theorem Dealt.rest (dealt : Dealt cfg history h) (accepted : accepts entries = [])
    (picked : picks entries = []) (round : post.round = h.round)
    (picking : ∀ q, (post.plane q).listener.picking = (h.plane q).listener.picking)
    (pushes : KeepsPushes h post)
    (queued : ∀ q i conn, (q, .queued i conn) ∈ entries → DealtTo cfg history q conn i) :
    Dealt cfg (history ++ entries) post := by
  have sameAccepts : accepts (history ++ entries) = accepts history := by
    rw [accepts_append, accepted, List.append_nil]
  have samePicks : picks (history ++ entries) = picks history := by
    rw [picks_append, picked, List.append_nil]
  refine ⟨?_, dealt.keepsPushes pushes, ?_, ?_, ?_⟩
  · rw [round, samePicks]
    exact dealt.round
  · intro q i conn member
    rcases List.mem_append.mp member with early | late
    · exact (dealt.queued q i conn early).mono entries
    · exact (queued q i conn late).mono entries
  · intro q
    rw [sameAccepts, samePicks, picking q]
    exact dealt.order q
  · rw [sameAccepts]
    exact dealt.accepted

theorem Dealt.step (dealt : Dealt cfg history h) (deals : Deals cfg h post entries)
    (unborn : ∀ q conn, (q, conn) ∈ accepts history → conn.sid ≠ (h.plane q).nextSid) :
    Dealt cfg (history ++ entries) post := by
  cases deals with
  | accepted round free picking pushes => exact dealt.accept unborn round free picking pushes
  | picked round was picking pushes => exact dealt.pick round was picking pushes
  | queued was index round picking pushes =>
      refine dealt.rest rfl rfl round picking pushes ?_
      intro q j other member
      cases List.mem_singleton.mp member
      -- the index is the one that the connection's number gave it
      obtain ⟨place, rfl, before⟩ := dealt.pending _ _ _ was
      unfold queueIndex at index
      split at index
      · obtain rfl := Option.some.inj index
        exact before
      · cases index
  | other round picking pushes silent =>
      refine dealt.rest (accepts_silent silent) (picks_silent silent) round picking pushes ?_
      intro q i conn member
      cases silent _ member

end Dealing

theorem hubRun_dealt (run : HubRun cfg wakeFd taken h) : Dealt cfg (trace taken) h := by
  refine run.invariant (Dealt cfg) ?_ ?_
  · refine ⟨rfl, ?_, ?_, fun _ => rfl, List.nodup_nil⟩
    · intro q idx conn pushing
      cases pushing
    · intro q i conn member
      cases member
  · intro past pre act post entries before dealt step
    have follows := hubRun_follows before
    refine dealt.step (hubStep_deals (hubRun_shaped before) (fun p => (follows p).2) step) ?_
    intro q conn member same
    have seen := mem_onPlane.mpr (mem_accepts.mp member)
    have born := accepted_born (follows q).1 seen
    rw [same] at born
    exact born ((follows q).2.unborn _ (Nat.le_refl _))

/-- The connections of both planes are dealt to the reactors in turn, in the order in which they take
the counter, which within one plane is the order of the accepts. Up to the overflow of the counter no
reactor index gets more than its share. -/
theorem connections_are_dealt_in_turn (run : HubRun cfg wakeFd taken h) :
    (∀ p i conn, (p, .queued i conn) ∈ trace taken → DealtTo cfg (trace taken) p conn i) ∧
      (∀ p, ofPlane p (picks (trace taken)) <+: ofPlane p (accepts (trace taken))) ∧
      ((picks (trace taken)).length ≤ UInt64.size → ∀ i,
        (picks (trace taken)).countP (fun a => decide ((a.1, .queued i a.2) ∈ trace taken)) ≤
          (picks (trace taken)).length / cfg.reactors +
            if i % cfg.reactors < (picks (trace taken)).length % cfg.reactors then 1 else 0) := by
  have dealt := hubRun_dealt run
  have positive : 0 < cfg.reactors := by
    unfold HubConfig.reactors
    omega
  refine ⟨dealt.queued, fun p => ⟨_, (dealt.order p).symm⟩, fun early i => ?_⟩
  have places : ∀ j a, (picks (trace taken))[j]? = some a →
      decide ((a.1, Event.queued i a.2) ∈ trace taken) = true → j ≡ i [MOD cfg.reactors] := by
    intro j a found queued
    obtain ⟨place, same, turn⟩ := dealt.queued a.1 i a.2 (of_decide_eq_true queued)
    have inside := (List.getElem?_eq_some_iff.mp found).1
    obtain rfl : j = place := (List.getElem?_inj inside dealt.counted_once).mp (found.trans same.symm)
    rw [turn, turnOf, Nat.mod_eq_of_lt (Nat.lt_of_lt_of_le inside early)]
    exact (Nat.mod_modEq j cfg.reactors).symm
  have share := countP_le_count _ (· ≡ i [MOD cfg.reactors]) _ places
  rwa [Nat.count_modEq_card _ positive] at share

/-- The forward connection is accepted first, the backend one counted first: it goes to the first
reactor, the other one to the second. -/
theorem connections_are_dealt_in_turn_twice :
    ∃ taken h, HubRun (pairConfig 4) pairWakeFd taken h ∧
      accepts (trace taken) = [(.kForward, ⟨5, 1⟩), (.kBackend, ⟨6, 1⟩)] ∧
      (.kForward, .queued 1 ⟨5, 1⟩) ∈ trace taken ∧
      DealtTo (pairConfig 4) (trace taken) .kForward ⟨5, 1⟩ 1 ∧
      ofPlane .kForward (picks (trace taken)) <+: [⟨5, 1⟩] ∧
      (picks (trace taken)).countP (fun a => decide ((a.1, .queued 1 a.2) ∈ trace taken)) ≤ 1 := by
  obtain ⟨taken, h, run, _, seen⟩ := run_of_follow (hubSystem (pairConfig 4)) (fun _ => true)
    (.init pairWakeFd)
    [.accept .kForward 5 true, .accept .kBackend 6 true, .listener .kBackend, .listener .kForward,
      .listener .kForward, .listener .kBackend]
    (fun x => decide (accepts x.2 = [(.kForward, ⟨5, 1⟩), (.kBackend, ⟨6, 1⟩)]) &&
      decide ((.kForward, .queued 1 ⟨5, 1⟩) ∈ x.2) && decide ((picks x.2).length = 2))
    (by decide +kernel)
  simp only [Bool.and_eq_true, decide_eq_true_eq] at seen
  obtain ⟨⟨accepted, queued⟩, two⟩ := seen
  obtain ⟨dealt, order, share⟩ := connections_are_dealt_in_turn run
  refine ⟨taken, h, run, accepted, queued, dealt _ _ _ queued, ?_, ?_⟩
  · have own := order .kForward
    rw [accepted] at own
    exact own
  · have bound := share (by rw [two]; decide) 1
    rw [two] at bound
    exact bound

end Runs

section Alternating

def PlaneState.taking (pl : PlaneState) (fd : Int) : PlaneState :=
  { pl with
    listener := .pick ⟨fd, pl.nextSid⟩
    nextSid := pl.nextSid + 1
    sockets := Function.update pl.sockets fd (some pl.nextSid) }

def PlaneState.pushing (pl : PlaneState) (idx : Int) (conn : NewConnection) : PlaneState :=
  { pl with listener := .push idx conn }

def PlaneState.notifying (pl : PlaneState) (i : Nat) (conn : NewConnection) : PlaneState :=
  { pl with
    listener := .notify i
    connQueue := Function.update pl.connQueue i (pl.connQueue i ++ [conn]) }

def PlaneState.joined (pl : PlaneState) (fd : Int) (i : Nat) : PlaneState :=
  { pl with
    listener := .accept
    nextSid := pl.nextSid + 1
    sockets := Function.update pl.sockets fd (some pl.nextSid)
    connQueue := Function.update pl.connQueue i (pl.connQueue i ++ [⟨fd, pl.nextSid⟩])
    wakeReadable := Function.update pl.wakeReadable i true }

def HubServer.join (h : HubServer) (p : Plane) (fd : Int) (i : Nat) : HubServer :=
  { h.setPlane p ((h.plane p).joined fd i) with round := h.round + 1 }

section Joining

variable {cfg : HubConfig} {h : HubServer} {p : Plane}

theorem join_self (fd : Int) (i : Nat) : (h.join p fd i).plane p = (h.plane p).joined fd i :=
  HubServer.setPlane_self ..

theorem join_other {q : Plane} (other : q ≠ p) (fd : Int) (i : Nat) :
    (h.join p fd i).plane q = h.plane q := HubServer.setPlane_other _ _ other

theorem join_sound (fd : Int) (i : Nat) (sound : h.sound = true) : (h.join p fd i).sound = true := by
  have faults : ∀ q, ((h.join p fd i).plane q).fault = (h.plane q).fault :=
    HubServer.forall_setPlane (P := fun q pl => pl.fault = (h.plane q).fault) rfl fun q => rfl
  simp only [HubServer.sound, faults]
  exact sound

theorem listener_step {pl post : PlaneState} {events : List Event} {round : UInt64}
    (sound : h.sound = true) (same : pl.fault = (h.plane p).fault)
    (step : listenerStep cfg round pl = some (post, events)) :
    (hubSystem cfg).step { h.setPlane p pl with round := round } (.listener p) =
      some ({ h.setPlane p post with round := if pl.listener.counts then round + 1 else round },
        events.map (Prod.mk p)) := by
  have faults : ∀ q, ((h.setPlane p pl).plane q).fault = (h.plane q).fault :=
    HubServer.forall_setPlane (P := fun q pl => pl.fault = (h.plane q).fault) same fun q => rfl
  have still : ({ h.setPlane p pl with round := round } : HubServer).sound = true := by
    simp only [HubServer.sound, faults]
    exact sound
  simp only [hubSystem, hubStep, still, Bool.true_eq_false, if_false, HubServer.setPlane_self, step,
    localStep, Option.map_some]
  simp only [HubServer.counted, HubServer.setPlane, Function.update_self, Function.update_idem]

theorem acceptStep_takes {pl : PlaneState} (fd : Int) (waiting : pl.listener = .accept) :
    acceptStep fd true pl = some (pl.taking fd, [.accepted fd pl.nextSid]) := by
  simp only [acceptStep, waiting, if_true, PlaneState.taking]

theorem listenerStep_picks {pl : PlaneState} {round : UInt64} {conn : NewConnection}
    (was : pl.listener = .pick conn) :
    listenerStep cfg round pl = some (pl.pushing (pickReactor cfg round) conn, [.picked conn]) := by
  simp only [listenerStep, was, PlaneState.pushing]

theorem listenerStep_pushes {pl : PlaneState} {round : UInt64} {idx : Int} {conn : NewConnection}
    {i : Nat} (was : pl.listener = .push idx conn) (turn : queueIndex cfg.reactors idx = some i)
    (room : (pl.connQueue i).length < cfg.queueCapacity) :
    listenerStep cfg round pl = some (pl.notifying i conn, [.queued i conn]) := by
  simp only [listenerStep, was, turn, push, if_neg (Nat.not_le.mpr room), PlaneState.notifying]

theorem listenerStep_notifies {pl : PlaneState} {round : UInt64} {i : Nat}
    (running : pl.running = true) (was : pl.listener = .notify i) :
    listenerStep cfg round pl =
      some
        ({ pl with
            listener := .accept
            wakeReadable := Function.update pl.wakeReadable i true }, []) := by
  simp only [listenerStep, was, PlaneState.again, running, if_true]

def joinEntries (p : Plane) (conn : NewConnection) (i : Nat) : List Entry :=
  [(p, .accepted conn.fd conn.sid), (p, .picked conn), (p, .queued i conn)]

theorem join_run {fd : Int} {i : Nat} (sound : h.sound = true) (free : h.fdFree cfg fd = true)
    (running : (h.plane p).running = true) (waiting : (h.plane p).listener = .accept)
    (turn : queueIndex cfg.reactors (pickReactor cfg h.round) = some i)
    (room : ((h.plane p).connQueue i).length < cfg.queueCapacity) :
    ∃ more, Run (hubSystem cfg) h more (h.join p fd i) ∧
      trace more = joinEntries p ⟨fd, (h.plane p).nextSid⟩ i := by
  have first : (hubSystem cfg).step h (.accept p fd true) =
      some ({ h.setPlane p ((h.plane p).taking fd) with round := h.round },
        [(p, .accepted fd (h.plane p).nextSid)]) := by
    simp only [hubSystem, hubStep, sound, Bool.true_eq_false, if_false, free, if_true,
      acceptStep_takes fd waiting, localStep, Option.map_some]
    rfl
  have second := @listener_step cfg h p ((h.plane p).taking fd) _ _ h.round sound rfl
    (listenerStep_picks rfl)
  have third := @listener_step cfg h p
    (((h.plane p).taking fd).pushing (pickReactor cfg h.round) ⟨fd, (h.plane p).nextSid⟩) _ _
    (h.round + 1) sound rfl (listenerStep_pushes rfl turn room)
  have fourth := @listener_step cfg h p
    ((((h.plane p).taking fd).pushing (pickReactor cfg h.round) ⟨fd, (h.plane p).nextSid⟩).notifying i
      ⟨fd, (h.plane p).nextSid⟩)
    ((h.plane p).joined fd i) _ (h.round + 1) sound rfl (listenerStep_notifies running rfl)
  exact ⟨_, .snoc (.snoc (.snoc (.snoc .nil first) second) third) fourth, rfl⟩

theorem fdFree_of {fd : Int} (sockets : ∀ p, (h.plane p).sockets fd = none)
    (wakeFd : ∀ p i, i < cfg.reactors → (h.plane p).wakeFd i ≠ fd) : h.fdFree cfg fd = true := by
  simp only [HubServer.fdFree, List.all_cons, List.all_nil, Bool.and_true, Bool.and_eq_true,
    sockets, List.all_eq_true, List.mem_range, bne_iff_ne, ne_eq, beq_self_eq_true, true_and]
  exact ⟨wakeFd .kForward, wakeFd .kBackend⟩

end Joining

theorem pair_turn {n i : Nat} {round : UInt64} (turn : round.toNat % 2 = i) :
    queueIndex (pairConfig n).reactors (pickReactor (pairConfig n) round) = some i := by
  have two : (pairConfig n).reactors = 2 := rfl
  unfold queueIndex pickReactor
  rw [two, turn, if_pos (by omega), Int.toNat_natCast]

theorem round_parity (round : UInt64) : (round + 1).toNat % 2 = (round.toNat + 1) % 2 := by
  rw [UInt64.toNat_add, UInt64.toNat_one]
  omega

theorem pairWakeFd_lt (p : Plane) (i : Nat) : pairWakeFd p i < 4 := by
  cases p <;> simp only [pairWakeFd] <;> omega

def pairHome : Plane → Nat
  | .kForward => 0
  | .kBackend => 1

theorem pairHome_peer_ne (p : Plane) : pairHome p.peer ≠ pairHome p := by
  cases p <;> decide

structure OneReactor (p : Plane) (m : Nat) (history : List Entry) (pl : PlaneState) : Prop where
  running : pl.running = true
  waiting : pl.listener = .accept
  wakeFd : pl.wakeFd = pairWakeFd p
  count : (ofPlane p (accepts history)).length = m
  own : pl.connQueue (pairHome p) = ofPlane p (accepts history)
  other : pl.connQueue (pairHome p.peer) = []
  queued : ∀ conn ∈ ofPlane p (accepts history), (p, .queued (pairHome p) conn) ∈ history
  only : ∀ i conn, (p, .queued i conn) ∈ history → i = pairHome p

section Joining

variable {p q : Plane} {m n : Nat} {history : List Entry} {pl : PlaneState}

theorem accepts_join (conn : NewConnection) (i : Nat) :
    ofPlane q (accepts (history ++ joinEntries p conn i)) =
      ofPlane q (accepts history) ++ if q = p then [conn] else [] := by
  rw [accepts_append]
  exact ofPlane_concat q p (accepts history) conn

theorem queued_join {i j : Nat} {conn other : NewConnection} :
    (q, .queued j other) ∈ history ++ joinEntries p conn i ↔
      (q, .queued j other) ∈ history ∨ q = p ∧ j = i ∧ other = conn := by
  simp [joinEntries]

theorem OneReactor.join (one : OneReactor p m history pl) (fd : Int) :
    OneReactor p (m + 1) (history ++ joinEntries p ⟨fd, pl.nextSid⟩ (pairHome p))
      (pl.joined fd (pairHome p)) := by
  have added := @accepts_join p p history ⟨fd, pl.nextSid⟩ (pairHome p)
  rw [if_pos rfl] at added
  refine ⟨one.running, rfl, one.wakeFd, ?_, ?_, ?_, ?_, ?_⟩
  · rw [added, List.length_append, one.count, List.length_singleton]
  · rw [added, ← one.own]
    exact Function.update_self ..
  · exact (Function.update_of_ne (pairHome_peer_ne p) ..).trans one.other
  · intro conn member
    rw [added] at member
    rcases List.mem_append.mp member with early | late
    · exact queued_join.mpr (.inl (one.queued conn early))
    · exact queued_join.mpr (.inr ⟨rfl, rfl, List.mem_singleton.mp late⟩)
  · intro i conn member
    rcases queued_join.mp member with early | ⟨_, here, _⟩
    · exact one.only i conn early
    · exact here

theorem OneReactor.aside (one : OneReactor q m history pl) (other : q ≠ p) (conn : NewConnection)
    (i : Nat) : OneReactor q m (history ++ joinEntries p conn i) pl := by
  have same := @accepts_join p q history conn i
  rw [if_neg other, List.append_nil] at same
  refine ⟨one.running, one.waiting, one.wakeFd, ?_, ?_, one.other, ?_, ?_⟩
  · rw [same]
    exact one.count
  · rw [same]
    exact one.own
  · intro later member
    rw [same] at member
    exact queued_join.mpr (.inl (one.queued later member))
  · intro j later member
    rcases queued_join.mp member with early | ⟨here, _⟩
    · exact one.only j later early
    · exact absurd here other

structure Separated (top : Int) (m : Plane → Nat) (history : List Entry) (h : HubServer) : Prop where
  sound : h.sound = true
  high : 4 ≤ top
  sockets : ∀ p fd, top ≤ fd → (h.plane p).sockets fd = none
  planes : ∀ p, OneReactor p (m p) history (h.plane p)

theorem Separated.fdFree {top : Int} {m : Plane → Nat} {h : HubServer}
    (separated : Separated top m history h) : h.fdFree (pairConfig n) top = true := by
  refine fdFree_of (fun p => separated.sockets p top (Int.le_refl top)) fun p i _ => ?_
  have small := pairWakeFd_lt p i
  have high := separated.high
  rw [(separated.planes p).wakeFd]
  omega

theorem Separated.join {top : Int} {m : Plane → Nat} {h : HubServer}
    (separated : Separated top m history h) (turn : h.round.toNat % 2 = pairHome p) (room : m p < n) :
    ∃ more, Run (hubSystem (pairConfig n)) h more (h.join p top (pairHome p)) ∧
      Separated (top + 1) (Function.update m p (m p + 1)) (history ++ trace more)
        (h.join p top (pairHome p)) := by
  have one := separated.planes p
  obtain ⟨more, run, recorded⟩ := @join_run (pairConfig n) h p top (pairHome p) separated.sound
    separated.fdFree one.running one.waiting (pair_turn turn) (by
      rw [one.own, one.count]
      exact room)
  refine ⟨more, run, join_sound _ _ separated.sound, ?_, ?_, ?_⟩
  · have high := separated.high
    omega
  · intro q
    by_cases here : q = p
    · subst here
      intro fd large
      rw [join_self]
      exact (Function.update_of_ne (by omega) ..).trans (separated.sockets q fd (by omega))
    · intro fd large
      rw [join_other here]
      exact separated.sockets q fd (by omega)
  · intro q
    rw [recorded]
    by_cases here : q = p
    · subst here
      rw [Function.update_self, join_self]
      exact one.join top
    · rw [Function.update_of_ne here, join_other here]
      exact (separated.planes q).aside here _ _

end Joining

/-- Since the counter is shared, the connections of one plane may all go to one reactor: where the
accepts of the planes alternate, each of two reactors gets all of one plane and none of the other. -/
theorem one_plane_may_use_one_reactor (n : Nat) :
    ∃ taken h, HubRun (pairConfig n) pairWakeFd taken h ∧ ∀ p,
      (ofPlane p (accepts (trace taken))).length = n ∧
      (∀ conn ∈ ofPlane p (accepts (trace taken)), (p, .queued (pairHome p) conn) ∈ trace taken) ∧
      (∀ i conn, (p, .queued i conn) ∈ trace taken → i = pairHome p) ∧
      (h.plane p).connQueue (pairHome p) = ofPlane p (accepts (trace taken)) ∧
      (h.plane p).connQueue (pairHome p.peer) = [] := by
  have reached : ∀ m ≤ n, ∃ taken h top, HubRun (pairConfig n) pairWakeFd taken h ∧
      h.round.toNat % 2 = 0 ∧ Separated top (fun _ => m) (trace taken) h := by
    intro m
    induction m with
    | zero =>
        intro _
        refine ⟨[], .init pairWakeFd, 4, .nil, rfl, rfl, Int.le_refl 4, fun _ _ _ => rfl, fun p => ?_⟩
        exact ⟨rfl, rfl, rfl, rfl, rfl, rfl, by simp [ofPlane, accepts, trace], by simp [trace]⟩
    | succ m ih =>
        intro room
        obtain ⟨taken, h, top, run, even, separated⟩ := ih (by omega)
        obtain ⟨first, forward, between⟩ := @Separated.join .kForward n _ _ _ _ separated even room
        have odd := round_parity h.round
        have again := round_parity (h.round + 1)
        obtain ⟨second, backend, after⟩ := @Separated.join .kBackend n _ _ _ _ between
          (odd.trans (by rw [Nat.add_mod, even]; rfl)) room
        have counts : Function.update (Function.update (fun _ => m) .kForward (m + 1)) .kBackend
            (m + 1) = fun _ : Plane => m + 1 := by
          funext p
          cases p <;> rfl
        refine ⟨_, _, top + 1 + 1, (run.append forward).append backend, ?_, ?_⟩
        · change (h.round + 1 + 1).toNat % 2 = 0
          omega
        · rw [trace_append, trace_append, ← counts]
          exact after
  obtain ⟨taken, h, top, run, _, separated⟩ := reached n (Nat.le_refl n)
  refine ⟨taken, h, run, fun p => ?_⟩
  have one := separated.planes p
  exact ⟨one.count, one.queued, one.only, one.own, one.other⟩

end Alternating

end HiImCore.Hub
