import HiImCore.Cmd.Lifecycle

/-! The health endpoint (`src/hub/health_server.cpp`): what a request is answered, over the states that
the process goes through. -/

namespace HiImCore.Cmd

open Decimal Hub Wire

/-- What fits into `req` before its terminating zero. -/
def kRequestSize : Nat := 1023

/-- `strstr(req, "/readyz") != nullptr`, with `req` ending at its first zero. -/
def readyPath (request : Bytes) : Bool :=
  (request.takeWhile (· != 0)).tails.any fun rest => (ascii "/readyz").isPrefixOf rest

def response (ok : Bool) : Bytes :=
  let body := if ok then ascii "ok\n" else ascii "not ready\n"
  let status := if ok then ascii "200 OK" else ascii "503 Service Unavailable"
  ascii "HTTP/1.1 " ++ status ++ ascii "\r\nContent-Type: text/plain\r\nContent-Length: " ++
    decimal body.length ++ ascii "\r\nConnection: close\r\n\r\n" ++ body

/-- A round of `HealthServer::Run` for a connection on which its one `recv` finds these bytes; `none`
where it is closed without an answer. -/
def answer (s : Process) (request : Bytes) : Option Bytes :=
  let req := request.take kRequestSize
  if req = [] then none
  else some (response (if readyPath req then s.isReady else true))

/-- The states that the process goes through, up to the calls of `Start`, `Stop` and `Wait`. -/
inductive Reached (kernel : Kernel) (cfg : DualHubConfig) : Process → Prop
  | constructed : Reached kernel cfg .initial
  | started {ok : Bool} {s : Process} (returned : start kernel cfg .initial = .returned ok s) :
      Reached kernel cfg s
  | stopped {s : Process} (before : Reached kernel cfg s) : Reached kernel cfg (stop s)
  | waited {s : Process} (before : Reached kernel cfg s) :
      Reached kernel cfg (wait cfg.hubConfig s)

section Ready

variable {kernel : Kernel} {cfg : DualHubConfig} {p : Plane} {s t : Process} {ok : Bool}

def ReadyOnceServing (s : Process) : Prop := (s.member .health).joinable = true → s.isReady = true

theorem listenerStart_returned (returned : listenerStart kernel cfg p s = .returned ok t) :
    t.member .health = s.member .health ∧ (∀ q, s.listening q = true → t.listening q = true) ∧
      (ok = true → t.listening p = true) := by
  unfold listenerStart at returned
  split at returned
  next => cases returned
  next m _ =>
    cases returned
    have other : Part.health ≠ .listener p := by simp
    refine ⟨Function.update_of_ne other m s.member, fun q listening => ?_, fun up => ?_⟩
    · dsimp only
      split
      · by_cases same : q = p
        · rw [same, Function.update_self]
        · rw [Function.update_of_ne same, listening]
      · exact listening
    · simp [up]

theorem healthStart_returned (returned : healthStart kernel cfg s = .returned ok t) :
    t.listening = s.listening := by
  unfold healthStart at returned
  split at returned
  · cases returned
  · cases returned
    rfl

theorem startParts_returned (returned : startParts kernel cfg s = .returned ok t) :
    t.listening = s.listening := by
  unfold startParts at returned
  split at returned
  · cases returned
  · have kept := healthStart_returned returned
    exact kept

theorem idle_ready (idle : s.member .health = .initial) : ReadyOnceServing s := by
  intro serving
  rw [idle] at serving
  cases serving

theorem start_ready (returned : start kernel cfg .initial = .returned ok s) : ReadyOnceServing s := by
  unfold start at returned
  cases forward : listenerStart kernel cfg .kForward .initial with
  | threw =>
      rw [forward] at returned
      cases returned
  | returned first afterForward =>
      rw [forward] at returned
      obtain ⟨idle, _, listening⟩ := listenerStart_returned forward
      cases first with
      | false =>
          cases returned
          exact idle_ready idle
      | true =>
          cases backend : listenerStart kernel cfg .kBackend afterForward with
          | threw =>
              simp only [backend] at returned
              cases returned
          | returned second afterBackend =>
              simp only [backend] at returned
              obtain ⟨stillIdle, kept, both⟩ := listenerStart_returned backend
              cases second with
              | false =>
                  cases returned
                  exact idle_ready (stillIdle.trans idle)
              | true =>
                  intro _
                  rw [Process.isReady, startParts_returned returned, kept _ (listening rfl), both rfl]
                  rfl

theorem closeFd_joinable (m : Member) : m.closeFd.joinable = m.joinable := by
  unfold Member.closeFd
  split <;> rfl

theorem reached_ready (reached : Reached kernel cfg s) : ReadyOnceServing s := by
  induction reached with
  | constructed => exact idle_ready rfl
  | started returned => exact start_ready returned
  | @stopped s before ih =>
      intro serving
      rw [stop_member, if_neg (by decide), closeFd_joinable] at serving
      exact ih serving
  | @waited s before ih =>
      have present : Part.Present cfg.hubConfig .health := trivial
      intro serving
      rw [joined_member s present] at serving
      cases serving

/-- `/readyz` is never refused: the server is started after both planes were marked as listening, and
nothing takes the mark back, neither `Stop` nor a reactor that could not be started. -/
theorem readyz_never_answers_503 (reached : Reached kernel cfg s)
    (serving : (s.member .health).joinable = true) {request : Bytes} (sent : request ≠ []) :
    answer s request = some (response true) := by
  have ready := reached_ready reached serving
  have received : request.take kRequestSize ≠ [] := by
    simp [kRequestSize, sent]
  rw [answer, if_neg received, ready, ite_self]

theorem generousKernel_starts : generousKernel.Starts .initial where
  listeners := by
    intro p
    cases p with
    | kForward => exact ⟨by decide +kernel, rfl⟩
    | kBackend => exact ⟨by decide +kernel, rfl⟩
  polling := fun _ _ => .inl rfl
  health := ⟨by decide +kernel, rfl⟩

theorem readyz_never_answers_503_stopped :
    ∃ s, Reached generousKernel .initial (stop s) ∧ ((stop s).member .health).joinable = true ∧
      answer (stop s) (ascii "GET /readyz HTTP/1.1\r\n\r\n") = some (response true) := by
  have ends := start_ends generousKernel .initial
  generalize begun : start generousKernel .initial .initial = result at ends
  cases ends with
  | threw fails _ => exact absurd generousKernel_starts fails
  | refused refuses _ _ => exact absurd refuses generousKernel_starts.heard
  | abandoned fails _ _ => exact absurd generousKernel_starts fails
  | @up _ s present _ =>
      have there : Part.Present DualHubConfig.initial.hubConfig .health := trivial
      have serving : ((stop s).member .health).joinable = true := by
        rw [stop_member, if_neg (by decide), closeFd_joinable, present _ there]
        rfl
      have reached : Reached generousKernel .initial (stop s) := .stopped (.started begun)
      exact ⟨s, reached, serving, readyz_never_answers_503 reached serving (by decide)⟩

end Ready

end HiImCore.Cmd
