import HiImCore.Hub.Traffic

/-! One call of `HandleReadable` on a session, with every call it makes, while the other
threads do what they like to the rest of the plane. -/

namespace HiImCore.Hub

open Transition Wire

inductive CallAction where
  | own (input : ReactorInput)
  | others (state : PlaneState)

def callStep (cfg : HubConfig) (i : Nat) (pl : PlaneState) :
    CallAction → Option (PlaneState × List Event)
  | .own input => if pl.fault then none else reactorStep cfg i input pl
  | .others state =>
      some
        ({ state with
            reactor := Function.update state.reactor i (pl.reactor i)
            wakeFd := pl.wakeFd
            fault := pl.fault }, [])

def callSystem (cfg : HubConfig) (i : Nat) : System PlaneState CallAction Event := ⟨callStep cfg i⟩

structure Reactor.Consistent (r : Reactor) : Prop where
  sid : ∀ k s, r.sessions k = some s → s.sid = k
  fdOfKey : ∀ k s, r.sessions k = some s → r.fdToSid s.fd = some k
  keyOfFd : ∀ fd k, r.fdToSid fd = some k → ∃ s, r.sessions k = some s ∧ s.fd = fd

/-- A call of `HandleReadable` for descriptor `fd`, which looks session `k` up, as far as
`taken` shows it; `rest` are the calls it returns to. -/
structure ReadableCall (cfg : HubConfig) (i : Nat) (fd : Int) (k : Nat) (rest : List Task)
    (start : PlaneState) (taken : List (Taken PlaneState CallAction Event)) (final : PlaneState) :
    Prop where
  called : (start.reactor i).stack = .handleReadable fd :: rest
  sound : start.fault = false
  consistent : (start.reactor i).Consistent
  notWake : fd ≠ start.wakeFd i
  lookup : (start.reactor i).fdToSid fd = some k
  run : Run (callSystem cfg i) start taken final
  inside : Within (fun x => (x.pre.reactor i).stack ≠ rest) taken

inductive Stage where
  | called
  | receiving
  | popping
  | pushing (msg : Tagged InboundMessage) (attempt : Nat)
  | writing
  | sending
  | returned

def Stage.calls (fd : Int) (k : Nat) : Stage → List Task
  | .called => [.handleReadable fd]
  | .receiving => [.recvLoop k]
  | .popping => [.popLoop k]
  | .pushing msg attempt => [.pushInbound k msg attempt, .popLoop k]
  | .writing => [.handleWritable fd, .popLoop k]
  | .sending => [.writeLoop k, .popLoop k]
  | .returned => []

/-- An `UNSUB_REQ` that `HandleSystem` turns down without closing the session. -/
def UnsubRefused (s : Session) (frame : FrameView) : Prop :=
  SysCmd.ofCode (headerFieldHost frame.header WireHeader.type) = some .kUnsubReq ∧
    (s.authed = false ∨ frame.payload.length < 4)

instance (s : Session) (frame : FrameView) : Decidable (UnsubRefused s frame) :=
  inferInstanceAs (Decidable (_ ∧ _))

inductive SystemOutcome (s : Session) (frame : FrameView) : Stage → Option Session → Prop
  | closed (other : ¬ UnsubRefused s frame) : SystemOutcome s frame .returned none
  | refused (refusal : UnsubRefused s frame) : SystemOutcome s frame .returned (some s)
  | acknowledged (next : Session) (other : ¬ UnsubRefused s frame) (sid : next.sid = s.sid)
      (fd : next.fd = s.fd) : SystemOutcome s frame .writing (some next)
  | ignored (other : ¬ UnsubRefused s frame) : SystemOutcome s frame .popping (some s)

inductive Advance : Stage → Option Session → ReactorInput → Stage → Option Session → Prop
  | looked (s : Session) : Advance .called (some s) .run .receiving (some s)
  | received (s : Session) (bytes : Bytes) :
      Advance .receiving (some s) (.recv (.data bytes)) .popping
        (some { s with fb := s.fb.append bytes })
  | blocked (s : Session) : Advance .receiving (some s) (.recv .wouldBlock) .returned (some s)
  | ended (s : Session) (result : RecvResult) (finished : result = .endOfStream ∨ result = .failed) :
      Advance .receiving (some s) (.recv result) .returned none
  | drained (s : Session) (left : FrameBuffer) (popped : s.fb.tryPopFrame = (none, left)) :
      Advance .popping (some s) .run .receiving (some { s with fb := left })
  | system (s : Session) (frame : FrameView) (left : FrameBuffer) (stage : Stage)
      (next : Option Session) (popped : s.fb.tryPopFrame = (some frame, left))
      (flag : headerFieldHost frame.header WireHeader.flag = kFlagSys)
      (outcome : SystemOutcome { s with fb := left } frame stage next) :
      Advance .popping (some s) .run stage next
  | enqueued (s : Session) (frame : FrameView) (left : FrameBuffer) (msg : Tagged InboundMessage)
      (popped : s.fb.tryPopFrame = (some frame, left))
      (flag : headerFieldHost frame.header WireHeader.flag ≠ kFlagSys) (authed : s.authed = true) :
      Advance .popping (some s) .run (.pushing msg 0)
        (some { s with fb := left, popped := s.popped + 1 })
  | expelled (s : Session) (frame : FrameView) (left : FrameBuffer)
      (popped : s.fb.tryPopFrame = (some frame, left))
      (flag : headerFieldHost frame.header WireHeader.flag ≠ kFlagSys)
      (unauthed : s.authed = false) : Advance .popping (some s) .run .popping none
  | retried (s : Session) (msg left : Tagged InboundMessage) (attempt next : Nat) :
      Advance (.pushing msg attempt) (some s) .run (.pushing left next) (some s)
  | enqueuedOrLost (s : Session) (msg : Tagged InboundMessage) (attempt : Nat) :
      Advance (.pushing msg attempt) (some s) .run .popping (some s)
  | writable (s : Session) : Advance .writing (some s) .run .sending (some s)
  | wrote (s : Session) (count : Nat) :
      Advance .sending (some s) (.send (.sent (count + 1))) .sending
        (some { s with outbuf := s.outbuf.drop (count + 1) })
  | flushed (s : Session) (input : ReactorInput) (idle : input = .run ∨ input = .send .wouldBlock) :
      Advance .sending (some s) input .popping (some s)
  | failed (s : Session) (input : ReactorInput)
      (broken : input = .send (.sent 0) ∨ input = .send .failed) :
      Advance .sending (some s) input .popping none

section Holding

/-- What the call relies on besides the stack: the session under its key, or its absence. -/
structure Holds (i : Nat) (fd : Int) (k : Nat) (session : Option Session) (pl : PlaneState) :
    Prop where
  sound : pl.fault = false
  notWake : fd ≠ pl.wakeFd i
  found : (pl.reactor i).sessions k = session
  held : ∀ s, session = some s → s.sid = k ∧ s.fd = fd ∧ (pl.reactor i).fdToSid fd = some k

variable {i k : Nat} {fd : Int} {session : Option Session} {s next : Session} {pl post : PlaneState}

theorem Holds.setStack (holds : Holds i fd k session pl) (stack : List Task) :
    Holds i fd k session (pl.setStack i stack) ∧
      ((pl.setStack i stack).reactor i).stack = stack := by
  refine ⟨⟨holds.sound, holds.notWake, ?_, ?_⟩, ?_⟩
  · simpa [PlaneState.setStack, PlaneState.setReactor] using holds.found
  · simpa [PlaneState.setStack, PlaneState.setReactor] using holds.held
  · simp [PlaneState.setStack, PlaneState.setReactor]

theorem Holds.setSession (holds : Holds i fd k (some s) pl) (next : Session)
    (sid : next.sid = s.sid) (same : next.fd = s.fd) : Holds i fd k (some next) (pl.setSession i k next) := by
  obtain ⟨key, descriptor, lookup⟩ := holds.held s rfl
  refine ⟨holds.sound, holds.notWake, ?_, ?_⟩
  · simp [PlaneState.setSession, PlaneState.setReactor]
  · intro t same'
    cases same'
    refine ⟨sid.trans key, same.trans descriptor, ?_⟩
    simpa [PlaneState.setSession, PlaneState.setReactor] using lookup

theorem Holds.updateInterest (holds : Holds i fd k session pl) (descriptor : Int)
    (wantRead wantWrite : Bool) :
    Holds i fd k session (pl.updateInterest i descriptor wantRead wantWrite) := by
  unfold PlaneState.updateInterest
  split
  · exact holds
  · refine ⟨holds.sound, holds.notWake, ?_, ?_⟩
    · simpa [PlaneState.setReactor] using holds.found
    · simpa [PlaneState.setReactor] using holds.held

theorem Holds.setRouter (holds : Holds i fd k session pl) (router : Router) :
    Holds i fd k session { pl with router := router } :=
  ⟨holds.sound, holds.notWake, holds.found, holds.held⟩

theorem Holds.setRecvQueue (holds : Holds i fd k session pl)
    (queue : Nat → List (Tagged InboundMessage)) :
    Holds i fd k session { pl with recvQueue := queue } :=
  ⟨holds.sound, holds.notWake, holds.found, holds.held⟩

theorem Holds.closeSession (holds : Holds i fd k (some s) pl) :
    Holds i fd k none (closeSession i s.sid pl).state ∧ (closeSession i s.sid pl).calls = [] ∧
      (closeSession i s.sid pl).events = [.closed i s.sid] := by
  obtain ⟨key, _⟩ := holds.held s rfl
  unfold Hub.closeSession
  rw [key, holds.found]
  refine ⟨⟨holds.sound, holds.notWake, ?_, nofun⟩, rfl, rfl⟩
  simp

theorem Holds.sendAck (holds : Holds i fd k (some s) pl) (cmd : SysCmd) (nid : UInt32) :
    (∃ next : Session, next.sid = s.sid ∧ next.fd = s.fd ∧
      Holds i fd k (some next) (sendBytes i k s (ackFrame cmd nid) pl).state) ∧
      (sendBytes i k s (ackFrame cmd nid) pl).calls = [.handleWritable fd] := by
  obtain ⟨_, descriptor, _⟩ := holds.held s rfl
  have extended : Holds i fd k (some { s with outbuf := s.outbuf ++ ackFrame cmd nid })
      (pl.setSession i k { s with outbuf := s.outbuf ++ ackFrame cmd nid }) :=
    holds.setSession _ rfl rfl
  rw [sendBytes_ackFrame]
  refine ⟨⟨{ s with outbuf := s.outbuf ++ ackFrame cmd nid }, rfl, rfl, ?_⟩, ?_⟩
  · exact extended.updateInterest _ _ _
  · rw [descriptor]

def Leads (i : Nat) (fd : Int) (k : Nat) (s : Session) (frame : FrameView) (out : Effect × Bool) :
    Prop :=
  ∃ stage next, SystemOutcome s frame stage next ∧ Holds i fd k next out.1.state ∧
    out.1.calls ++ (if out.2 then [.popLoop k] else []) = stage.calls fd k

variable {frame : FrameView}

theorem Holds.acknowledge (holds : Holds i fd k (some next) pl)
    (other : ¬ UnsubRefused s frame) (sid : next.sid = s.sid) (same : next.fd = s.fd)
    (cmd : SysCmd) (nid : UInt32) (events : List Event) :
    Leads i fd k s frame
      ({ sendBytes i k next (ackFrame cmd nid) pl with events := events }, true) := by
  obtain ⟨⟨after, sameSid, sameFd, held⟩, calls⟩ := holds.sendAck cmd nid
  refine ⟨.writing, some after, ?_, held, ?_⟩
  · exact .acknowledged after other (sameSid.trans sid) (sameFd.trans same)
  · dsimp only
    rw [calls]
    rfl

theorem Holds.expel (holds : Holds i fd k (some s) pl) (other : ¬ UnsubRefused s frame) :
    Leads i fd k s frame (Hub.closeSession i s.sid pl, false) := by
  obtain ⟨gone, calls, _⟩ := holds.closeSession
  refine ⟨.returned, none, .closed other, gone, ?_⟩
  dsimp only
  rw [calls]
  rfl

theorem notRefused_of_type {cmd : SysCmd}
    (type : SysCmd.ofCode (headerFieldHost frame.header WireHeader.type) = some cmd)
    (other : cmd ≠ .kUnsubReq) : ¬ UnsubRefused s frame := by
  rintro ⟨unsub, _⟩
  rw [type] at unsub
  exact other (Option.some.inj unsub)

theorem Holds.handleSystem (holds : Holds i fd k (some s) pl) (cfg : HubConfig)
    (frame : FrameView) : Leads i fd k s frame (handleSystem cfg i k s frame pl) := by
  unfold Hub.handleSystem
  dsimp only
  split
  · rename_i type
    have other : ¬ UnsubRefused s frame := notRefused_of_type type (by decide)
    split
    · exact holds.expel other
    · rename_i auth decoded
      split
      · have bound : Holds i fd k
            (some { s with
              authed := true, gid := beToHost32 auth.gid, nid := beToHost32 auth.nid })
            (pl.setSession i k { s with
              authed := true, gid := beToHost32 auth.gid, nid := beToHost32 auth.nid }) :=
          holds.setSession _ rfl rfl
        exact (bound.setRouter _).acknowledge other rfl rfl _ _ _
      · exact holds.expel other
  · rename_i type
    have other : ¬ UnsubRefused s frame := notRefused_of_type type (by decide)
    split
    · exact holds.expel other
    · exact (holds.setRouter _).acknowledge other rfl rfl _ _ _
  · rename_i type
    split
    · rename_i bad
      exact ⟨.returned, some s, .refused ⟨type, bad⟩, holds, rfl⟩
    · rename_i good
      exact (holds.setRouter _).acknowledge (fun refused => good refused.2) rfl rfl _ _ _
  · rename_i type
    have other : ¬ UnsubRefused s frame := notRefused_of_type type (by decide)
    exact holds.acknowledge other rfl rfl _ _ _
  · rename_i unsub _
    exact ⟨.popping, some s, .ignored fun refused => unsub refused.1, holds, rfl⟩

end Holding

section Steps

structure At (i : Nat) (fd : Int) (k : Nat) (rest : List Task) (stage : Stage)
    (session : Option Session) (pl : PlaneState) : Prop where
  holds : Holds i fd k session pl
  stack : (pl.reactor i).stack = stage.calls fd k ++ rest
  present : session = none → stage = .popping ∨ stage = .returned

theorem At.returned {i k : Nat} {fd : Int} {rest : List Task} {stage : Stage}
    {session : Option Session} {pl : PlaneState} (reached : At i fd k rest stage session pl)
    (back : (pl.reactor i).stack = rest) : stage = .returned := by
  have none : stage.calls fd k = [] :=
    List.self_eq_append_left.mp (back.symm.trans reached.stack)
  cases stage with
  | returned => rfl
  | _ => cases none

inductive Proceeds (i : Nat) (fd : Int) (k : Nat) (rest : List Task) (stage : Stage)
    (session : Option Session) (input : ReactorInput) (post : PlaneState) (events : List Event) :
    Prop
  | on (next : Stage) (after : Option Session) (advance : Advance stage session input next after)
      (reached : At i fd k rest next after post) (calm : ∀ j, .dangling i j ∉ events)
  | dangles (popping : stage = .popping) (gone : session = none) (recorded : .dangling i k ∈ events)
      (fault : post.fault = true) (stuck : (post.reactor i).stack ≠ rest)

variable {cfg : HubConfig} {i k : Nat} {fd : Int} {rest : List Task} {s : Session}
  {input : ReactorInput} {pl mid post : PlaneState} {events : List Event}

theorem Holds.reaches {session : Option Session} (holds : Holds i fd k session mid) (stage : Stage)
    (present : session = none → stage = .popping ∨ stage = .returned) :
    At i fd k rest stage session (mid.setStack i (stage.calls fd k ++ rest)) :=
  ⟨(holds.setStack _).1, (holds.setStack _).2, present⟩

theorem Holds.reachesOpen (holds : Holds i fd k (some s) mid) (stage : Stage) :
    At i fd k rest stage (some s) (mid.setStack i (stage.calls fd k ++ rest)) :=
  holds.reaches stage fun gone => absurd gone (Option.some_ne_none s)

theorem stepReadable_proceeds (holds : Holds i fd k (some s) pl)
    (step : stepReadable i input pl rest fd = some (post, events)) :
    Proceeds i fd k rest .called (some s) input post events := by
  have subscript : pl.subscript i k = pl := by
    rw [PlaneState.subscript, holds.found]
  cases input with
  | run =>
      simp only [stepReadable, if_neg holds.notWake, (holds.held s rfl).2.2, subscript] at step
      cases step
      exact .on .receiving (some s) (.looked s) (holds.reachesOpen .receiving) (by simp)
  | _ => cases step

theorem stepRecv_proceeds (holds : Holds i fd k (some s) pl)
    (step : stepRecv i input pl rest k = some (post, events)) :
    Proceeds i fd k rest .receiving (some s) input post events := by
  unfold stepRecv at step
  rw [holds.found] at step
  have finished : ∀ result, input = .recv result → (result = .endOfStream ∨ result = .failed) →
      some ((closeSession i s.sid pl).state.setStack i ((closeSession i s.sid pl).calls ++ rest),
        (closeSession i s.sid pl).events) = some (post, events) →
      Proceeds i fd k rest .receiving (some s) input post events := by
    rintro result rfl ended same
    obtain ⟨gone, calls, recorded⟩ := holds.closeSession
    rw [calls, recorded] at same
    cases same
    exact .on .returned none (.ended s result ended)
      (gone.reaches .returned fun _ => Or.inr rfl) (by simp)
  split at step
  · rename_i absent
    cases absent
  · rename_i found
    cases found
    rename_i bytes
    split at step
    · cases step
      exact .on .popping _ (.received s bytes)
        ((holds.setSession { s with fb := s.fb.append bytes } rfl rfl).reachesOpen .popping)
        (by simp)
    · cases step
  · cases step
    exact .on .returned (some s) (.blocked s) (holds.reachesOpen .returned) (by simp)
  · rename_i found
    cases found
    exact finished _ rfl (Or.inl rfl) step
  · rename_i found
    cases found
    exact finished _ rfl (Or.inr rfl) step
  · cases step

theorem answer_calm {answer : List Event} {session : Session} {frame : FrameView}
    (answered : Answer cfg i k session frame answer) (j : Nat) : .dangling i j ∉ answer := by
  cases answered <;> simp

theorem system_proceeds {frame : FrameView} {left : FrameBuffer}
    (holds : Holds i fd k (some { s with fb := left }) mid)
    (popped : s.fb.tryPopFrame = (some frame, left))
    (flag : headerFieldHost frame.header WireHeader.flag = kFlagSys)
    (step : some
      ((handleSystem cfg i k { s with fb := left } frame mid).1.state.setStack i
          ((handleSystem cfg i k { s with fb := left } frame mid).1.calls ++
            if (handleSystem cfg i k { s with fb := left } frame mid).2 then .popLoop k :: rest
            else rest),
        .system k frame :: (handleSystem cfg i k { s with fb := left } frame mid).1.events) =
      some (post, events)) :
    Proceeds i fd k rest .popping (some s) .run post events := by
  obtain ⟨stage, next, outcome, held, calls⟩ := holds.handleSystem cfg frame
  have answered : Answer cfg i k { s with fb := left } frame
      (handleSystem cfg i k { s with fb := left } frame mid).1.events := handleSystem_answer mid
  have calm := answer_calm answered
  generalize handleSystem cfg i k { s with fb := left } frame mid = out at step held calls calm
  obtain ⟨⟨after, made, recorded⟩, ok⟩ := out
  have stack : made ++ (if ok then .popLoop k :: rest else rest) = stage.calls fd k ++ rest := by
    rw [← calls]
    cases ok <;> simp
  dsimp only at step
  rw [stack] at step
  cases step
  refine .on stage next (.system s frame left stage next popped flag outcome)
    (held.reaches stage ?_) ?_
  · intro gone
    cases outcome with
    | closed => exact Or.inr rfl
    | _ => cases gone
  · intro j member
    rcases List.mem_cons.mp member with same | inside
    · cases same
    · exact calm j inside

theorem business_proceeds {frame : FrameView} {left : FrameBuffer}
    (holds : Holds i fd k (some { s with fb := left }) mid)
    (popped : s.fb.tryPopFrame = (some frame, left))
    (flag : headerFieldHost frame.header WireHeader.flag ≠ kFlagSys)
    (step : some
      ((enqueueInbound i k { s with fb := left } frame mid).state.setStack i
          ((enqueueInbound i k { s with fb := left } frame mid).calls ++ .popLoop k :: rest),
        (enqueueInbound i k { s with fb := left } frame mid).events) = some (post, events)) :
    Proceeds i fd k rest .popping (some s) .run post events := by
  cases authed : s.authed with
  | false =>
      obtain ⟨gone, calls, recorded⟩ := holds.closeSession
      have expelled : enqueueInbound i k { s with fb := left } frame mid =
          closeSession i s.sid mid := by
        rw [enqueueInbound, if_pos authed]
      rw [expelled, show (closeSession i s.sid mid).calls = [] from calls,
        show (closeSession i s.sid mid).events = _ from recorded] at step
      cases step
      exact .on .popping none (.expelled s frame left popped flag authed)
        (gone.reaches .popping fun _ => Or.inl rfl) (by simp)
  | true =>
      have unexpelled : ¬ ({ s with fb := left } : Session).authed = false := by simp [authed]
      rw [enqueueInbound, if_neg unexpelled] at step
      cases step
      have counted : Holds i fd k (some { s with fb := left, popped := s.popped + 1 }) _ :=
        holds.setSession { s with fb := left, popped := s.popped + 1 } rfl rfl
      exact .on (.pushing _ 0) _ (.enqueued s frame left _ popped flag authed)
        (counted.reachesOpen (.pushing _ 0)) (by simp)

theorem stepPop_proceeds (holds : Holds i fd k (some s) pl)
    (step : stepPop cfg i input pl rest k = some (post, events)) :
    Proceeds i fd k rest .popping (some s) input post events := by
  unfold stepPop at step
  rw [holds.found] at step
  split at step
  · rename_i absent
    cases absent
  · rename_i found
    cases found
    split at step
    · rename_i left popped
      cases step
      exact .on .receiving _ (.drained s left popped)
        ((holds.setSession { s with fb := left } rfl rfl).reachesOpen .receiving) (by simp)
    · rename_i frame left popped
      have shorter : Holds i fd k (some { s with fb := left })
          (pl.setSession i k { s with fb := left }) := holds.setSession _ rfl rfl
      dsimp only at step
      split at step
      · rename_i flag
        exact system_proceeds shorter popped flag step
      · rename_i flag
        exact business_proceeds shorter popped flag step
  · cases step

theorem pickWorker_inRange (cfg : HubConfig) (sid : Nat) :
    queueIndex cfg.workers (pickWorker cfg sid) = some (sid % cfg.workers) := by
  have positive : 0 < cfg.workers := by
    simp only [HubConfig.workers]
    omega
  have small : sid % cfg.workers < cfg.workers := Nat.mod_lt sid positive
  have inside : (0 : Int) ≤ pickWorker cfg sid ∧ pickWorker cfg sid < cfg.workers := by
    simp only [pickWorker]
    omega
  rw [queueIndex, if_pos inside]
  rfl

theorem stepPush_proceeds {msg : Tagged InboundMessage} {attempt : Nat}
    (holds : Holds i fd k (some s) pl)
    (step : stepPush cfg i input pl (.popLoop k :: rest) k msg attempt = some (post, events)) :
    Proceeds i fd k rest (.pushing msg attempt) (some s) input post events := by
  unfold stepPush at step
  rw [pickWorker_inRange] at step
  split at step
  · rename_i outside
    cases outside
  · split at step
    · cases step
      exact .on .popping (some s) (.enqueuedOrLost s msg attempt)
        ((holds.setRecvQueue _).reachesOpen .popping) (by simp)
    · rename_i left next again
      cases step
      exact .on (.pushing left next) (some s) (.retried s msg left attempt next)
        (holds.reachesOpen (.pushing left next)) (by simp)
    · rw [holds.found] at step
      cases step
      exact .on .popping (some s) (.enqueuedOrLost s msg attempt)
        (holds.reachesOpen .popping) (by simp)
  · cases step

theorem stepWritable_proceeds (holds : Holds i fd k (some s) pl)
    (step : stepWritable i input pl (.popLoop k :: rest) fd = some (post, events)) :
    Proceeds i fd k rest .writing (some s) input post events := by
  have subscript : pl.subscript i k = pl := by
    rw [PlaneState.subscript, holds.found]
  cases input with
  | run =>
      simp only [stepWritable, (holds.held s rfl).2.2, subscript] at step
      cases step
      exact .on .sending (some s) (.writable s) (holds.reachesOpen .sending) (by simp)
  | _ => cases step

theorem stepWrite_proceeds (holds : Holds i fd k (some s) pl)
    (step : stepWrite i input pl (.popLoop k :: rest) k = some (post, events)) :
    Proceeds i fd k rest .sending (some s) input post events := by
  have broken : ∀ result, input = .send result → (result = .sent 0 ∨ result = .failed) →
      some ((closeSession i s.sid pl).state.setStack i
          ((closeSession i s.sid pl).calls ++ .popLoop k :: rest),
        (closeSession i s.sid pl).events) = some (post, events) →
      Proceeds i fd k rest .sending (some s) input post events := by
    rintro result rfl failure same
    obtain ⟨gone, calls, recorded⟩ := holds.closeSession
    rw [calls, recorded] at same
    cases same
    exact .on .popping none
      (.failed s _ (failure.imp (congrArg ReactorInput.send) (congrArg ReactorInput.send)))
      (gone.reaches .popping fun _ => Or.inl rfl) (by simp)
  unfold stepWrite at step
  rw [holds.found] at step
  dsimp only at step
  split at step
  · split at step
    · cases step
      exact .on .popping (some s) (.flushed s .run (Or.inl rfl))
        ((holds.updateInterest _ _ _).reachesOpen .popping) (by simp)
    · cases step
  · split at step
    · rename_i count
      split at step
      · cases step
        exact .on .sending _ (.wrote s count)
          ((holds.setSession { s with outbuf := s.outbuf.drop (count + 1) } rfl rfl).reachesOpen .sending)
          (by simp)
      · cases step
    · cases step
      exact .on .popping (some s) (.flushed s _ (Or.inr rfl))
        ((holds.updateInterest _ _ _).reachesOpen .popping) (by simp)
    · exact broken _ rfl (Or.inl rfl) step
    · exact broken _ rfl (Or.inr rfl) step
    · cases step

theorem At.step {stage : Stage} {session : Option Session}
    (reached : At i fd k rest stage session pl) (going : stage ≠ .returned)
    (step : reactorStep cfg i input pl = some (post, events)) :
    Proceeds i fd k rest stage session input post events := by
  have holds := reached.holds
  unfold reactorStep at step
  rw [reached.stack] at step
  cases session with
  | none =>
      rcases reached.present rfl with rfl | rfl
      · simp only [Stage.calls, List.singleton_append, stepPop] at step
        rw [holds.found] at step
        cases step
        refine .dangles rfl rfl List.mem_cons_self rfl ?_
        rw [show ({ pl with fault := true } : PlaneState).reactor i = pl.reactor i from rfl,
          reached.stack]
        simp [Stage.calls]
      · exact absurd rfl going
  | some s =>
      cases stage with
      | called => exact stepReadable_proceeds holds step
      | receiving => exact stepRecv_proceeds holds step
      | popping => exact stepPop_proceeds holds step
      | pushing msg attempt => exact stepPush_proceeds holds step
      | writing => exact stepWritable_proceeds holds step
      | sending => exact stepWrite_proceeds holds step
      | returned => exact absurd rfl going

end Steps

section Calls

variable {cfg : HubConfig} {i k : Nat} {fd : Int} {rest : List Task} {start final : PlaneState}
  {taken : List (Taken PlaneState CallAction Event)}

theorem At.congr {stage : Stage} {session : Option Session} {pl post : PlaneState}
    (reached : At i fd k rest stage session pl) (reactor : post.reactor i = pl.reactor i)
    (wakeFd : post.wakeFd = pl.wakeFd) (fault : post.fault = pl.fault) :
    At i fd k rest stage session post := by
  refine ⟨⟨?_, ?_, ?_, ?_⟩, ?_, reached.present⟩
  · rw [fault]
    exact reached.holds.sound
  · rw [wakeFd]
    exact reached.holds.notWake
  · rw [reactor]
    exact reached.holds.found
  · rw [reactor]
    exact reached.holds.held
  · rw [reactor]
    exact reached.stack

theorem callStep_others {pl post state : PlaneState} {events : List Event}
    (step : (callSystem cfg i).step pl (.others state) = some (post, events)) :
    post.reactor i = pl.reactor i ∧ post.wakeFd = pl.wakeFd ∧ post.fault = pl.fault ∧
      events = [] := by
  cases step
  exact ⟨Function.update_self .., rfl, rfl, rfl⟩

inductive CameTo (i : Nat) (fd : Int) (k : Nat) (rest : List Task)
    (Inv : List (Taken PlaneState CallAction Event) → Stage → Option Session → Prop)
    (taken : List (Taken PlaneState CallAction Event)) (final : PlaneState) : Prop
  | stage (stage : Stage) (session : Option Session) (reached : At i fd k rest stage session final)
      (calm : ∀ j, .dangling i j ∉ trace taken) (inv : Inv taken stage session)
  | dangled (front back : List (Taken PlaneState CallAction Event)) (split : taken = front ++ back)
      (inv : Inv front .popping none) (recorded : .dangling i k ∈ trace taken)
      (fault : final.fault = true) (stuck : (final.reactor i).stack ≠ rest)

theorem ReadableCall.induct
    (Inv : List (Taken PlaneState CallAction Event) → Stage → Option Session → Prop)
    (call : ReadableCall cfg i fd k rest start taken final)
    (first : ∀ s, (start.reactor i).sessions k = some s → Inv [] .called (some s))
    (own : ∀ past pre stage session input events next after,
      At i fd k rest stage session pre → Inv past stage session →
      Advance stage session input next after →
      Inv (past ++ [⟨pre, .own input, events⟩]) next after)
    (others : ∀ past pre state events stage session, Inv past stage session →
      Inv (past ++ [⟨pre, .others state, events⟩]) stage session) :
    CameTo i fd k rest Inv taken final := by
  obtain ⟨called, sound, consistent, notWake, lookup, run, inside⟩ := call
  obtain ⟨s, found, descriptor⟩ := consistent.keyOfFd fd k lookup
  have key := consistent.sid k s found
  induction run with
  | nil =>
      refine .stage .called (some s) ⟨⟨sound, notWake, found, ?_⟩, called, nofun⟩ (by simp)
        (first s found)
      intro t same
      cases same
      exact ⟨key, descriptor, lookup⟩
  | @snoc past pre post act events before step ih =>
      obtain ⟨front, last⟩ := within_append.mp inside
      have inCall : (pre.reactor i).stack ≠ rest := last _ (List.mem_singleton.mpr rfl)
      cases ih front with
      | stage stage session reached calm inv =>
          cases act with
          | own input =>
              have step : reactorStep cfg i input pre = some (post, events) := by
                simpa [callSystem, callStep, reached.holds.sound] using step
              have going : stage ≠ .returned := by
                rintro rfl
                exact inCall reached.stack
              cases reached.step going step with
              | on next after advance arrived quiet =>
                  refine .stage next after arrived ?_ (own past pre stage session input events next
                    after reached inv advance)
                  intro j member
                  rw [trace_append, trace_singleton] at member
                  exact (List.mem_append.mp member).elim (calm j) (quiet j)
              | dangles popping gone recorded fault stuck =>
                  subst popping gone
                  refine .dangled past _ rfl inv ?_ fault stuck
                  rw [trace_append, trace_singleton]
                  exact List.mem_append_right _ recorded
          | others state =>
              obtain ⟨reactor, wakeFd, fault, rfl⟩ := callStep_others step
              refine .stage stage session (reached.congr reactor wakeFd fault) ?_
                (others past pre state [] stage session inv)
              intro j member
              rw [trace_append, trace_singleton, List.append_nil] at member
              exact calm j member
      | dangled earlier back split inv recorded fault stuck =>
          cases act with
          | own input => simp [callSystem, callStep, fault] at step
          | others state =>
              obtain ⟨reactor, _, same, rfl⟩ := callStep_others step
              refine .dangled earlier (back ++ [_]) (by rw [split, List.append_assoc]) inv ?_
                (same.trans fault) ?_
              · rw [trace_append]
                exact List.mem_append_left _ recorded
              · rw [reactor]
                exact stuck

end Calls

end HiImCore.Hub
