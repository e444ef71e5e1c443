import HiImCore.Hub.Turns

/-! What a turn of one reactor leaves alone, and what a step of the hub does to one plane. -/

namespace HiImCore.Hub

section Frames

variable {i : Nat} {pl mid : PlaneState} {task : Task} {calls : List Task}

section Interest

variable (pl : PlaneState) (i : Nat) (fd : Int) (wantRead wantWrite : Bool)

@[simp] theorem updateInterest_listener :
    (pl.updateInterest i fd wantRead wantWrite).listener = pl.listener := by
  unfold PlaneState.updateInterest
  split <;> rfl

@[simp] theorem updateInterest_connQueue :
    (pl.updateInterest i fd wantRead wantWrite).connQueue = pl.connQueue := by
  unfold PlaneState.updateInterest
  split <;> rfl

@[simp] theorem updateInterest_wakeReadable :
    (pl.updateInterest i fd wantRead wantWrite).wakeReadable = pl.wakeReadable := by
  unfold PlaneState.updateInterest
  split <;> rfl

@[simp] theorem updateInterest_wakeFd :
    (pl.updateInterest i fd wantRead wantWrite).wakeFd = pl.wakeFd := by
  unfold PlaneState.updateInterest
  split <;> rfl

@[simp] theorem updateInterest_sockets :
    (pl.updateInterest i fd wantRead wantWrite).sockets = pl.sockets := by
  unfold PlaneState.updateInterest
  split <;> rfl

theorem updateInterest_others {j : Nat} (other : j ≠ i) :
    (pl.updateInterest i fd wantRead wantWrite).reactor j = pl.reactor j := by
  unfold PlaneState.updateInterest
  split
  · rfl
  · exact Function.update_of_ne other ..

end Interest

theorem Turn.listener (turn : Turn i pl task mid calls) :
    mid.listener = pl.listener ∧ mid.wakeFd = pl.wakeFd := by
  cases turn with
  | resumed same resumes => exact ⟨same.listener, same.wakeFd⟩
  | reads found face writes reads => exact ⟨writes.listener, writes.wakeFd⟩
  | sends found face writes some caller =>
      rw [updateInterest_listener, updateInterest_wakeFd]
      exact ⟨writes.listener, writes.wakeFd⟩
  | wrote found writes => exact ⟨writes.listener, writes.wakeFd⟩
  | stopsWriting found => exact ⟨updateInterest_listener .., updateInterest_wakeFd ..⟩
  | closes found closes ends => exact ⟨closes.listener, closes.wakeFd⟩
  | _ => exact ⟨rfl, rfl⟩

theorem Turn.others (turn : Turn i pl task mid calls) {j : Nat} (other : j ≠ i) :
    mid.reactor j = pl.reactor j ∧ mid.connQueue j = pl.connQueue j ∧
      mid.wakeReadable j = pl.wakeReadable j := by
  cases turn with
  | resumed same resumes => exact ⟨by rw [same.reactor], by rw [same.connQueue], by rw [same.wakeReadable]⟩
  | woken => exact ⟨rfl, rfl, Function.update_of_ne other ..⟩
  | reads found face writes reads =>
      rw [writes.reactor, writes.connQueue, writes.wakeReadable]
      exact ⟨Function.update_of_ne other .., rfl, rfl⟩
  | sends found face writes some caller =>
      rw [updateInterest_others _ _ _ _ _ other, updateInterest_connQueue,
        updateInterest_wakeReadable, writes.reactor, writes.connQueue, writes.wakeReadable]
      exact ⟨Function.update_of_ne other .., rfl, rfl⟩
  | wrote found writes =>
      rw [writes.reactor, writes.connQueue, writes.wakeReadable]
      exact ⟨Function.update_of_ne other .., rfl, rfl⟩
  | stopsWriting found =>
      rw [updateInterest_connQueue, updateInterest_wakeReadable]
      exact ⟨updateInterest_others _ _ _ _ _ other, rfl, rfl⟩
  | closes found closes ends =>
      rw [closes.reactor, closes.connQueue, closes.wakeReadable]
      exact ⟨Function.update_of_ne other .., rfl, rfl⟩
  | registered queue =>
      exact ⟨Function.update_of_ne other .., Function.update_of_ne other .., rfl⟩
  | _ => exact ⟨rfl, rfl, rfl⟩

end Frames

section Planes

variable {cfg : HubConfig} {h post : HubServer} {act : Action} {entries : List Entry}

/-- What a step of the hub does to plane `q`: a thread of the plane takes it, or the step
leaves its reactors and the hand-over of connections alone. -/
inductive PlaneStep (cfg : HubConfig) (h : HubServer) (q : Plane) :
    Action → PlaneState → List Event → Prop
  | aside {act : Action} {post : PlaneState} {events : List Event}
      (same : Untouched (h.plane q) post) (inRange : .outOfRange ∉ events) :
      PlaneStep cfg h q act post events
  | accepted {fd : Int} {nonBlocking : Bool} {post : PlaneState} {events : List Event}
      (free : h.fdFree cfg fd = true)
      (step : acceptStep fd nonBlocking (h.plane q) = some (post, events)) :
      PlaneStep cfg h q (.accept q fd nonBlocking) post events
  | listened {post : PlaneState} {events : List Event}
      (step : listenerStep cfg h.round (h.plane q) = some (post, events)) :
      PlaneStep cfg h q (.listener q) post events
  | reacted {i : Nat} {input : ReactorInput} {post : PlaneState} {events : List Event}
      (inside : i < cfg.reactors)
      (step : reactorStep cfg i input (h.plane q) = some (post, events)) :
      PlaneStep cfg h q (.reactor q i input) post events
  | distributed {post : PlaneState} {events : List Event}
      (step : distributorStep cfg (h.plane q) = some (post, events)) :
      PlaneStep cfg h q (.distributor q) post events

theorem Returns.inRange {origin : Origin} {events : List Event} (results : Returns origin events) :
    .outOfRange ∉ events := by
  intro member
  obtain ⟨status, same⟩ := results _ member
  cases same

theorem WorkerEffect.inRange {p : Plane} {w : Nat} {own peer : PlaneState} {s : WorkerStep}
    (effect : WorkerEffect cfg p w own peer s) : .outOfRange ∉ s.own ∧ .outOfRange ∉ s.peer := by
  cases effect with
  | published was plane results => exact ⟨inRange_nil, inRange_cons nofun results.inRange⟩
  | unrouted was plane dest results => exact ⟨inRange_nil, inRange_cons nofun results.inRange⟩
  | pushed was room results => exact ⟨inRange_nil, inRange_cons nofun results.inRange⟩
  | gaveUp was results => exact ⟨inRange_nil, results.inRange⟩
  | _ => simp

theorem localStep_plane {p : Plane} {base : HubServer} {result : Option (PlaneState × List Event)}
    (q : Plane) (planes : base.plane = h.plane) (step : localStep base p result = some (post, entries))
    (here : ∀ pl events, result = some (pl, events) → q = p → PlaneStep cfg h q act pl events) :
    PlaneStep cfg h q act (post.plane q) (onPlane q entries) := by
  obtain ⟨pl, events, done, rfl, rfl⟩ := localStep_some step
  by_cases same : p = q
  · subst same
    rw [onPlane_map, if_pos rfl, HubServer.setPlane_self]
    exact here pl events done rfl
  · rw [onPlane_map, if_neg same, HubServer.setPlane_other base pl (Ne.symm same), planes]
    exact .aside (.refl _) inRange_nil

theorem hubStep_plane (q : Plane) (step : hubStep cfg h act = some (post, entries)) :
    PlaneStep cfg h q act (post.plane q) (onPlane q entries) := by
  unfold hubStep at step
  split at step
  · cases step
  · cases act with
    | accept p fd nonBlocking =>
        dsimp only at step
        split at step
        · rename_i free
          refine localStep_plane q rfl step ?_
          rintro pl events done rfl
          exact .accepted free done
        · cases step
    | listener p =>
        have planes : (h.counted p).plane = h.plane := rfl
        refine localStep_plane q planes step ?_
        rintro pl events done rfl
        exact .listened done
    | reactor p i input =>
        dsimp only at step
        split at step
        · rename_i inside
          refine localStep_plane q rfl step ?_
          rintro pl events done rfl
          exact .reacted inside done
        · cases step
    | worker p w =>
        dsimp only at step
        split at step
        · obtain ⟨s, done, same⟩ := Option.map_eq_some_iff.mp step
          cases same
          obtain ⟨own, peer⟩ := (workerStep_effect done).inRange
          refine .aside ?_ ?_
          · refine HubServer.forall_setPlanes (P := fun q pl => Untouched (h.plane q) pl) ?_ ?_ q
            · exact ⟨⟨rfl, rfl, rfl, rfl⟩, rfl, rfl⟩
            · exact ⟨⟨rfl, rfl, rfl, rfl⟩, rfl, rfl⟩
          · rw [onPlane_append, onPlane_map, onPlane_map, List.mem_append]
            rintro (first | second)
            · split at first
              · exact own first
              · cases first
            · split at second
              · exact peer second
              · cases second
        · cases step
    | distributor p =>
        refine localStep_plane q rfl step ?_
        rintro pl events done rfl
        exact .distributed done
    | stop p =>
        refine localStep_plane q rfl step ?_
        rintro pl events done rfl
        cases done
        exact .aside ⟨⟨rfl, rfl, rfl, rfl⟩, rfl, rfl⟩ inRange_nil

theorem PlaneStep.reactor {g : Registry} {q : Plane} {pl : PlaneState} {events : List Event}
    (step : PlaneStep cfg h q act pl events) (agrees : Agrees g (h.plane q).core) (j : Nat) :
    pl.reactor j = (h.plane q).reactor j ∨
      ∃ task mid calls rest, Turn j (h.plane q) task mid calls ∧
        ((h.plane q).reactor j).stack = task :: rest ∧ pl = mid.setStack j (calls ++ rest) := by
  cases step with
  | aside same inRange => exact .inl (congrFun same.reactor j)
  | accepted free step => exact .inl (congrFun (acceptStep_listening step).2.1 j)
  | listened step => exact .inl (congrFun (listenerStep_listening step).2.1 j)
  | distributed step => exact .inl (congrFun (distributorStep_apart step).reactor j)
  | reacted inside step =>
      rename_i i _
      obtain ⟨task, rest, top, _, ⟨mid, calls, turn, rfl⟩ | rfl⟩ := reactorStep_turns agrees step
      · by_cases own : j = i
        · subst own
          exact .inr ⟨task, mid, calls, rest, turn, top, rfl⟩
        · exact .inl ((Function.update_of_ne own ..).trans (turn.others own).1)
      · exact .inl rfl

end Planes

end HiImCore.Hub
