import HiImCore.Hub.Exchange

/-! Inbound messages on their way from the session to the worker: what holds of a
message when it is built, and survives its being moved from, holds wherever it is. -/

namespace HiImCore.Hub

open Transition Wire

def Worker.message : Worker → Option (Tagged InboundMessage)
  | .handle msg => some msg
  | .push msg _ _ _ => some msg
  | _ => none

structure Traffic.Carries (H : Tagged InboundMessage → Nat → Prop)
    (Q : Tagged InboundMessage → Prop) (t : Traffic) : Prop where
  hand : ∀ i msg attempt, (msg, attempt) ∈ t.hand i → H msg attempt
  queue : ∀ w msg, msg ∈ t.recvQueue w → Q msg
  worker : ∀ w msg, (t.worker w).message = some msg → Q msg

section Steps

variable {H : Tagged InboundMessage → Nat → Prop} {Q : Tagged InboundMessage → Prop}
  {cfg : HubConfig} {i w : Nat} {pl own peer : PlaneState} {events : List Event} {t : Traffic}

theorem Traffic.Carries.setHand (carries : t.Carries H Q) {items : List (Tagged InboundMessage × Nat)}
    (good : ∀ x ∈ items, H x.1 x.2) :
    ({ t with hand := Function.update t.hand i items }).Carries H Q := by
  refine { carries with hand := ?_ }
  intro j msg attempt member
  simp only [Function.update_apply] at member
  split at member
  · exact good _ member
  · exact carries.hand j msg attempt member

theorem ReactorEffect.carries (effect : ReactorEffect cfg i pl events t)
    (carries : pl.traffic.Carries H Q) (new : ∀ session frame, H (inbound i session frame) 0)
    (moved : ∀ msg attempt, H msg attempt → H (movedFrom msg) (attempt + 1))
    (enqueued : ∀ msg attempt w, pl.traffic.hand i = [(msg, attempt)] →
      queueIndex cfg.workers (pickWorker cfg msg.val.sid) = some w →
      (pl.recvQueue w).length < cfg.queueCapacity → H msg attempt → Q msg) :
    t.Carries H Q := by
  have holds : ∀ {msg attempt}, pl.traffic.hand i = [(msg, attempt)] → H msg attempt :=
    fun held => carries.hand i _ _ (by rw [held]; exact List.mem_singleton.mpr rfl)
  cases effect with
  | quiet | dangling | outOfRange | closed | registered | wrote | system => exact carries
  | received pops flag authed free =>
      exact carries.setHand (List.forall_mem_singleton.mpr (new _ _))
  | @pushed msg attempt v held index room =>
      have emptied : ({ pl.traffic with hand := Function.update pl.traffic.hand i [] }).Carries H Q :=
        carries.setHand (fun x member => by cases member)
      refine { emptied with queue := ?_ }
      intro u other member
      simp only [Function.update_apply] at member
      split at member
      · rename_i here
        subst here
        rcases List.mem_append.mp member with old | last
        · exact carries.queue u other old
        · obtain rfl := List.mem_singleton.mp last
          exact enqueued other attempt u held index room (holds held)
      · exact carries.queue u other member
  | retried held =>
      exact carries.setHand (List.forall_mem_singleton.mpr (moved _ _ (holds held)))
  | gaveUp held => exact carries.setHand (fun x member => by cases member)
  | dropped front absent => exact ⟨carries.hand, carries.queue, carries.worker⟩
  | sent front found => exact ⟨carries.hand, carries.queue, carries.worker⟩

theorem publishNext_message {msg other : Tagged InboundMessage} {subs : List Subscriber}
    (busy : (publishNext msg subs).1.message = some other) : other = msg := by
  cases subs with
  | nil => cases busy
  | cons sub rest => exact (Option.some.inj busy).symm

theorem WorkerEffect.carries {p : Plane} {s : WorkerStep} (effect : WorkerEffect cfg p w own peer s)
    (carries : own.traffic.Carries H Q) :
    ({ own.traffic with
        worker := Function.update own.worker w s.worker
        recvQueue := Function.update own.recvQueue w s.recvQueue }).Carries H Q := by
  have held : ∀ {msg}, (own.worker w).message = some msg → Q msg := fun busy => carries.worker w _ busy
  have queue : ∀ msg ∈ s.recvQueue, Q msg := by
    cases effect with
    | took was front =>
        intro msg member
        refine carries.queue w msg ?_
        rw [show own.traffic.recvQueue w = _ from front]
        exact List.mem_cons_of_mem _ member
    | _ => exact carries.queue w
  have worker : ∀ msg, s.worker.message = some msg → Q msg := by
    intro msg busy
    cases effect with
    | idle was still => rcases still with rfl | rfl <;> cases busy
    | took was front =>
        obtain rfl := Option.some.inj busy
        refine carries.queue w _ ?_
        rw [show own.traffic.recvQueue w = _ from front]
        exact List.mem_cons_self
    | published was plane results =>
        obtain rfl := publishNext_message busy
        exact held (by rw [was]; rfl)
    | ignored was plane => cases busy
    | unrouted was plane dest results => cases busy
    | routed was plane dest found =>
        obtain rfl := Option.some.inj busy
        exact held (by rw [was]; rfl)
    | pushed was room results =>
        obtain rfl := publishNext_message busy
        exact held (by rw [was]; rfl)
    | retried was =>
        obtain rfl := Option.some.inj busy
        exact held (by rw [was]; rfl)
    | gaveUp was results => cases busy
  refine { carries with queue := ?_, worker := ?_ }
  · intro v msg member
    simp only [Function.update_apply] at member
    split at member
    · exact queue msg member
    · exact carries.queue v msg member
  · intro v msg busy
    simp only [Function.update_apply] at busy
    split at busy
    · exact worker msg busy
    · exact carries.worker v msg busy

theorem DistributorEffect.carries (effect : DistributorEffect cfg pl events t)
    (carries : pl.traffic.Carries H Q) : t.Carries H Q := by
  cases effect <;> exact ⟨carries.hand, carries.queue, carries.worker⟩

end Steps

section Runs

variable {H : Plane → Tagged InboundMessage → Nat → Prop}
  {Q : Plane → Tagged InboundMessage → Prop} {cfg : HubConfig} {h post : HubServer} {act : Action}
  {entries : List Entry}

theorem HubEffect.carries (effect : HubEffect cfg h act post entries)
    (carries : ∀ p, (h.plane p).traffic.Carries (H p) (Q p))
    (new : ∀ p i session frame, H p (inbound i session frame) 0)
    (moved : ∀ p msg attempt, H p msg attempt → H p (movedFrom msg) (attempt + 1))
    (enqueued : ∀ p i input msg attempt w, act = .reactor p i input →
      (h.plane p).traffic.hand i = [(msg, attempt)] →
      queueIndex cfg.workers (pickWorker cfg msg.val.sid) = some w →
      ((h.plane p).recvQueue w).length < cfg.queueCapacity → H p msg attempt → Q p msg) :
    ∀ p, (post.plane p).traffic.Carries (H p) (Q p) := by
  cases effect with
  | listening same silent =>
      intro q
      rw [same q]
      exact carries q
  | @reactor p i input pl events effect =>
      refine HubServer.forall_setPlane
        (P := fun q pl => pl.traffic.Carries (H q) (Q q)) ?_ carries
      exact effect.carries (carries p) (new p i) (moved p) fun msg attempt w =>
        enqueued p i input msg attempt w rfl
  | @distributor p pl events effect =>
      exact HubServer.forall_setPlane (P := fun q pl => pl.traffic.Carries (H q) (Q q))
        (effect.carries (carries p)) carries
  | @worker p w s effect =>
      refine HubServer.forall_setPlanes (P := fun q pl => pl.traffic.Carries (H q) (Q q))
        (effect.carries (carries p)) ?_
      exact ⟨(carries p.peer).hand, (carries p.peer).queue, (carries p.peer).worker⟩

theorem carries_init (wakeFd : Plane → Nat → Int) (p : Plane) :
    ((HubServer.init wakeFd).plane p).traffic.Carries (H p) (Q p) where
  hand := by intro i msg attempt member; cases member
  queue := by intro w msg member; cases member
  worker := by intro w msg busy; cases busy

def Genuine (msg : Tagged InboundMessage) : Prop :=
  msg.val.sid = msg.origin.sid ∧
    msg.val.type = headerFieldHost msg.origin.frame.header WireHeader.type ∧
    (msg.val.payload = msg.origin.frame.payload ∨ msg.val.payload = [])

theorem hubRun_genuine {wakeFd : Plane → Nat → Int} {taken : List (Taken HubServer Action Entry)}
    (run : HubRun cfg wakeFd taken h) :
    ∀ p, (h.plane p).traffic.Carries (fun msg _ => Genuine msg) Genuine := by
  refine run.invariant
    (fun _ h => ∀ p, (h.plane p).traffic.Carries (fun msg _ => Genuine msg) Genuine) ?_ ?_
  · exact carries_init (H := fun _ msg _ => Genuine msg) (Q := fun _ => Genuine) wakeFd
  · intro past pre act post events before carries step
    refine (hubRun_effect before step).carries (H := fun _ msg _ => Genuine msg)
      (Q := fun _ => Genuine) carries ?_ ?_ ?_
    · intro p i session frame
      exact ⟨rfl, rfl, Or.inl rfl⟩
    · rintro p msg attempt ⟨sid, type, payload⟩
      exact ⟨sid, type, Or.inr rfl⟩
    · intro p i input msg attempt w _ _ _ _ genuine
      exact genuine

end Runs

end HiImCore.Hub
