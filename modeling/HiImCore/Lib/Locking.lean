import HiImCore.Lib.Replay
import HiImCore.Lib.Transition
import Mathlib.Logic.Function.Basic

/-! An object behind a reader-writer lock. Calls of any number of threads are interleaved at each
access to the shared state; the history of their returns is that of the object with atomic calls. -/

namespace HiImCore.Locking

open Replay Transition

variable {σ ρ ο : Type}

/-- The accesses of a call, one after the other; what follows an access depends on the state that
it found. -/
inductive Body (σ ρ : Type) where
  | done (result : ρ)
  | access (update : σ → σ) (next : σ → Body σ ρ)

namespace Body

/-- The call without interruption. -/
def run : Body σ ρ → σ → σ × ρ
  | .done result, s => (s, result)
  | .access update next, s => (next s).run (update s)

def ReadOnly : Body σ ρ → Prop
  | .done _ => True
  | .access update next => (∀ s, update s = s) ∧ ∀ s, (next s).ReadOnly

theorem ReadOnly.run_fst {body : Body σ ρ} (reads : body.ReadOnly) (s : σ) : (body.run s).1 = s := by
  induction body with
  | done result => rfl
  | access update next ih =>
      rw [run, reads.1 s]
      exact ih s (reads.2 s)

end Body

inductive Mode where
  | exclusive
  | shared
  deriving DecidableEq

structure Guarded (σ ρ ο : Type) where
  mode : ο → Mode
  body : ο → Body σ ρ
  reads : ∀ op, mode op = .shared → (body op).ReadOnly

inductive Caller (σ ρ ο : Type) where
  | idle
  | waiting (op : ο)
  | inside (op : ο) (rest : Body σ ρ)

/-- The shared state, the holders of the lock and the threads. -/
structure Locked (σ ρ ο : Type) where
  state : σ
  writer : Option Nat
  readers : List Nat
  callers : Nat → Caller σ ρ ο

def Locked.start (s : σ) : Locked σ ρ ο := ⟨s, none, [], fun _ => .idle⟩

inductive Move (ο : Type) where
  | call (t : Nat) (op : ο)
  | acquire (t : Nat)
  | access (t : Nat)
  | release (t : Nat)

structure Returned (ρ ο : Type) where
  thread : Nat
  op : ο
  result : ρ

namespace Guarded

variable (M : Guarded σ ρ ο)

def step (s : Locked σ ρ ο) : Move ο → Option (Locked σ ρ ο × List (Returned ρ ο))
  | .call t op =>
      match s.callers t with
      | .idle => some ({ s with callers := Function.update s.callers t (.waiting op) }, [])
      | _ => none
  | .acquire t =>
      match s.callers t with
      | .waiting op =>
          let callers := Function.update s.callers t (.inside op (M.body op))
          match M.mode op with
          | .exclusive =>
              if s.writer = none ∧ s.readers = [] then
                some ({ s with writer := some t, callers := callers }, [])
              else none
          | .shared =>
              if s.writer = none then
                some ({ s with readers := t :: s.readers, callers := callers }, [])
              else none
      | _ => none
  | .access t =>
      match s.callers t with
      | .inside op (.access update next) =>
          some ({ s with
            state := update s.state
            callers := Function.update s.callers t (.inside op (next s.state)) }, [])
      | _ => none
  | .release t =>
      match s.callers t with
      | .inside op (.done result) =>
          let callers := Function.update s.callers t .idle
          match M.mode op with
          | .exclusive => some ({ s with writer := none, callers := callers }, [⟨t, op, result⟩])
          | .shared =>
              some ({ s with readers := s.readers.erase t, callers := callers }, [⟨t, op, result⟩])
      | _ => none

def system : System (Locked σ ρ ο) (Move ο) (Returned ρ ο) := ⟨M.step⟩

/-- The object whose calls are atomic. -/
def apply (s : σ) (e : Returned ρ ο) : σ := ((M.body e.op).run s).1

def Allows (s : σ) (e : Returned ρ ο) : Prop := ((M.body e.op).run s).2 = e.result

structure Consistent (a : σ) (s : Locked σ ρ ο) : Prop where
  free : s.writer = none → s.state = a
  alone : s.writer ≠ none → s.readers = []
  writes : ∀ t op rest, s.callers t = .inside op rest → M.mode op = .exclusive →
    s.writer = some t ∧ rest.run s.state = (M.body op).run a
  reads : ∀ t op rest, s.callers t = .inside op rest → M.mode op = .shared →
    t ∈ s.readers ∧ rest.ReadOnly ∧ (rest.run a).2 = ((M.body op).run a).2

variable {M} {a : σ} {s post : Locked σ ρ ο} {events : List (Returned ρ ο)}

theorem consistent_start (a : σ) : M.Consistent a (.start a) where
  free := fun _ => rfl
  alone := fun _ => rfl
  writes := by intro t op rest here; cases here
  reads := by intro t op rest here; cases here

theorem Consistent.unwritten (consistent : M.Consistent a s) {t : Nat} (reads : t ∈ s.readers) :
    s.writer = none ∧ s.state = a := by
  have none : s.writer = none := by
    by_contra held
    rw [consistent.alone held] at reads
    cases reads
  exact ⟨none, consistent.free none⟩

theorem inside_update {callers : Nat → Caller σ ρ ο} {t u : Nat} {caller : Caller σ ρ ο} {op : ο}
    {rest : Body σ ρ} (here : Function.update callers t caller u = .inside op rest) :
    (u = t ∧ caller = .inside op rest) ∨ (u ≠ t ∧ callers u = .inside op rest) := by
  by_cases own : u = t
  · subst own
    rw [Function.update_self] at here
    exact .inl ⟨rfl, here⟩
  · rw [Function.update_of_ne own] at here
    exact .inr ⟨own, here⟩

section Moves

variable {t : Nat} {op : ο} (consistent : M.Consistent a s)
include consistent

theorem Consistent.call : M.Consistent a { s with callers := Function.update s.callers t (.waiting op) } where
  free := consistent.free
  alone := consistent.alone
  writes := by
    intro u other rest here mode
    rcases inside_update here with ⟨_, moved⟩ | ⟨_, same⟩
    · cases moved
    · exact consistent.writes u other rest same mode
  reads := by
    intro u other rest here mode
    rcases inside_update here with ⟨_, moved⟩ | ⟨_, same⟩
    · cases moved
    · exact consistent.reads u other rest same mode

theorem Consistent.acquireExclusive (exclusive : M.mode op = .exclusive) (none : s.writer = none)
    (nobody : s.readers = []) :
    M.Consistent a { s with
      writer := some t, callers := Function.update s.callers t (.inside op (M.body op)) } where
  free := by intro free; cases free
  alone := fun _ => nobody
  writes := by
    intro u other rest here mode
    rcases inside_update here with ⟨rfl, moved⟩ | ⟨_, same⟩
    · cases moved
      exact ⟨rfl, by rw [consistent.free none]⟩
    · have held := (consistent.writes u other rest same mode).1
      rw [none] at held
      cases held
  reads := by
    intro u other rest here mode
    rcases inside_update here with ⟨rfl, moved⟩ | ⟨_, same⟩
    · cases moved
      rw [exclusive] at mode
      cases mode
    · have member := (consistent.reads u other rest same mode).1
      rw [nobody] at member
      cases member

theorem Consistent.acquireShared (shared : M.mode op = .shared) (none : s.writer = none) :
    M.Consistent a { s with
      readers := t :: s.readers
      callers := Function.update s.callers t (.inside op (M.body op)) } where
  free := consistent.free
  alone := fun held => absurd none held
  writes := by
    intro u other rest here mode
    rcases inside_update here with ⟨rfl, moved⟩ | ⟨_, same⟩
    · cases moved
      rw [shared] at mode
      cases mode
    · have held := (consistent.writes u other rest same mode).1
      rw [none] at held
      cases held
  reads := by
    intro u other rest here mode
    rcases inside_update here with ⟨rfl, moved⟩ | ⟨_, same⟩
    · cases moved
      exact ⟨List.mem_cons_self, M.reads op shared, rfl⟩
    · obtain ⟨member, reads⟩ := consistent.reads u other rest same mode
      exact ⟨List.mem_cons_of_mem t member, reads⟩

theorem Consistent.access {update : σ → σ} {next : σ → Body σ ρ}
    (inside : s.callers t = .inside op (.access update next)) :
    M.Consistent a { s with
      state := update s.state
      callers := Function.update s.callers t (.inside op (next s.state)) } := by
  cases mode : M.mode op with
  | exclusive =>
      obtain ⟨writer, runs⟩ := consistent.writes t op _ inside mode
      have nobody := consistent.alone (by rw [writer]; exact Option.some_ne_none t)
      refine ⟨?_, fun _ => nobody, ?_, ?_⟩
      · intro free
        rw [show s.writer = none from free] at writer
        cases writer
      · intro u other rest here otherMode
        rcases inside_update here with ⟨rfl, moved⟩ | ⟨apart, same⟩
        · cases moved
          exact ⟨writer, runs⟩
        · have held := (consistent.writes u other rest same otherMode).1
          rw [writer] at held
          exact absurd (Option.some.inj held).symm apart
      · intro u other rest here otherMode
        rcases inside_update here with ⟨rfl, moved⟩ | ⟨_, same⟩
        · cases moved
          rw [mode] at otherMode
          cases otherMode
        · have member := (consistent.reads u other rest same otherMode).1
          rw [nobody] at member
          cases member
  | shared =>
      obtain ⟨member, ⟨keeps, readsOn⟩, result⟩ := consistent.reads t op _ inside mode
      obtain ⟨none, same⟩ := consistent.unwritten member
      rw [keeps s.state]
      refine ⟨consistent.free, consistent.alone, ?_, ?_⟩
      · intro u other rest here otherMode
        rcases inside_update here with ⟨rfl, moved⟩ | ⟨_, was⟩
        · cases moved
          rw [mode] at otherMode
          cases otherMode
        · exact consistent.writes u other rest was otherMode
      · intro u other rest here otherMode
        rcases inside_update here with ⟨rfl, moved⟩ | ⟨_, was⟩
        · cases moved
          refine ⟨member, readsOn s.state, ?_⟩
          rw [← result, Body.run, same, keeps a]
        · exact consistent.reads u other rest was otherMode

theorem Consistent.releaseExclusive {result : ρ} (inside : s.callers t = .inside op (.done result))
    (exclusive : M.mode op = .exclusive) :
    ((M.body op).run a).2 = result ∧
      M.Consistent ((M.body op).run a).1 { s with
        writer := none, callers := Function.update s.callers t .idle } := by
  obtain ⟨writer, runs⟩ := consistent.writes t op _ inside exclusive
  have nobody := consistent.alone (by rw [writer]; exact Option.some_ne_none t)
  rw [← runs]
  refine ⟨rfl, fun _ => rfl, fun held => absurd rfl held, ?_, ?_⟩
  · intro u other rest here mode
    rcases inside_update here with ⟨_, moved⟩ | ⟨apart, same⟩
    · cases moved
    · have held := (consistent.writes u other rest same mode).1
      rw [writer] at held
      exact absurd (Option.some.inj held).symm apart
  · intro u other rest here mode
    rcases inside_update here with ⟨_, moved⟩ | ⟨_, same⟩
    · cases moved
    · have member := (consistent.reads u other rest same mode).1
      rw [nobody] at member
      cases member

theorem Consistent.releaseShared {result : ρ} (inside : s.callers t = .inside op (.done result))
    (shared : M.mode op = .shared) :
    ((M.body op).run a).2 = result ∧
      M.Consistent ((M.body op).run a).1 { s with
        readers := s.readers.erase t, callers := Function.update s.callers t .idle } := by
  obtain ⟨member, _, same⟩ := consistent.reads t op _ inside shared
  obtain ⟨none, _⟩ := consistent.unwritten member
  rw [(M.reads op shared).run_fst a]
  refine ⟨same.symm, consistent.free, fun held => absurd none held, ?_, ?_⟩
  · intro u other rest here mode
    rcases inside_update here with ⟨_, moved⟩ | ⟨_, was⟩
    · cases moved
    · exact consistent.writes u other rest was mode
  · intro u other rest here mode
    rcases inside_update here with ⟨_, moved⟩ | ⟨apart, was⟩
    · cases moved
    · obtain ⟨reader, readsOn⟩ := consistent.reads u other rest was mode
      exact ⟨(List.mem_erase_of_ne apart).mpr reader, readsOn⟩

end Moves

theorem Consistent.step (consistent : M.Consistent a s) {move : Move ο}
    (step : M.step s move = some (post, events)) :
    Along M.apply M.Allows a events ∧ M.Consistent (replay M.apply a events) post := by
  unfold Guarded.step at step
  cases move with
  | call t op =>
      dsimp only at step
      split at step <;> cases step
      exact ⟨trivial, consistent.call⟩
  | acquire t =>
      dsimp only at step
      split at step
      · rename_i op waits
        split at step <;> split at step <;> cases step
        · rename_i exclusive free
          exact ⟨trivial, consistent.acquireExclusive exclusive free.1 free.2⟩
        · rename_i shared free
          exact ⟨trivial, consistent.acquireShared shared free⟩
      · cases step
  | access t =>
      dsimp only at step
      split at step <;> cases step
      rename_i inside
      exact ⟨trivial, consistent.access inside⟩
  | release t =>
      dsimp only at step
      split at step
      · rename_i inside
        split at step <;> cases step
        · rename_i exclusive
          obtain ⟨result, next⟩ := consistent.releaseExclusive inside exclusive
          exact ⟨⟨result, trivial⟩, next⟩
        · rename_i shared
          obtain ⟨result, next⟩ := consistent.releaseShared inside shared
          exact ⟨⟨result, trivial⟩, next⟩
      · cases step

theorem run_linearizes {start : σ} {taken : List (Taken (Locked σ ρ ο) (Move ο) (Returned ρ ο))}
    (run : Run M.system (.start start) taken s) :
    Along M.apply M.Allows start (trace taken) ∧
      M.Consistent (replay M.apply start (trace taken)) s := by
  refine run.invariant (fun past s => Along M.apply M.Allows start past ∧
    M.Consistent (replay M.apply start past) s) ⟨trivial, consistent_start start⟩ ?_
  rintro past pre move post events _ ⟨along, consistent⟩ step
  obtain ⟨more, next⟩ := consistent.step step
  refine ⟨(along_append ..).mpr ⟨along, more⟩, ?_⟩
  rw [replay_append]
  exact next

end Guarded

end HiImCore.Locking
