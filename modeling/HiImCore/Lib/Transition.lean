import Mathlib.Data.List.Induction

/-! Transition systems whose steps are chosen by an action and record events. -/

namespace HiImCore.Transition

variable {σ α ε : Type}

/-- `step s a` is the successor of `s` under `a` and the events of the step, or
`none` where `a` is not enabled. -/
structure System (σ α ε : Type) where
  step : σ → α → Option (σ × List ε)

/-- One step of a run: the state it started from, its action and its events. -/
structure Taken (σ α ε : Type) where
  pre : σ
  act : α
  events : List ε

def trace (taken : List (Taken σ α ε)) : List ε := taken.flatMap Taken.events

@[simp] theorem trace_nil : trace ([] : List (Taken σ α ε)) = [] := rfl

@[simp] theorem trace_append (first second : List (Taken σ α ε)) :
    trace (first ++ second) = trace first ++ trace second :=
  List.flatMap_append

@[simp] theorem trace_singleton (x : Taken σ α ε) : trace [x] = x.events := by
  simp [trace]

/-- The finite runs from `start`. -/
inductive Run (M : System σ α ε) (start : σ) : List (Taken σ α ε) → σ → Prop
  | nil : Run M start [] start
  | snoc {taken : List (Taken σ α ε)} {s t : σ} {a : α} {events : List ε} :
      Run M start taken s → M.step s a = some (t, events) →
      Run M start (taken ++ [⟨s, a, events⟩]) t

/-- Every step of a run meets a condition. -/
def Within (ok : Taken σ α ε → Prop) (taken : List (Taken σ α ε)) : Prop := ∀ x ∈ taken, ok x

theorem within_append {ok : Taken σ α ε → Prop} {first second : List (Taken σ α ε)} :
    Within ok (first ++ second) ↔ Within ok first ∧ Within ok second := by
  constructor
  · intro all
    constructor
    · intro x member
      exact all x (List.mem_append_left second member)
    · intro x member
      exact all x (List.mem_append_right first member)
  · rintro ⟨front, back⟩ x member
    rcases List.mem_append.mp member with inFront | inBack
    · exact front x inFront
    · exact back x inBack

theorem Run.invariant_within {M : System σ α ε} {start s : σ} {taken : List (Taken σ α ε)}
    (ok : Taken σ α ε → Prop) (Inv : List ε → σ → Prop) (run : Run M start taken s)
    (first : Inv [] start)
    (keep : ∀ past pre act post events, Run M start past pre → Within ok past →
      Inv (trace past) pre → ok ⟨pre, act, events⟩ → M.step pre act = some (post, events) →
      Inv (trace past ++ events) post)
    (inside : Within ok taken) : Inv (trace taken) s := by
  induction run with
  | nil => exact first
  | snoc before step ih =>
      obtain ⟨front, last⟩ := within_append.mp inside
      rw [trace_append, trace_singleton]
      exact keep _ _ _ _ _ before front (ih front) (last _ (List.mem_singleton.mpr rfl)) step

theorem Run.invariant {M : System σ α ε} {start s : σ} {taken : List (Taken σ α ε)}
    (Inv : List ε → σ → Prop) (run : Run M start taken s) (first : Inv [] start)
    (keep : ∀ past pre act post events, Run M start past pre → Inv (trace past) pre →
      M.step pre act = some (post, events) → Inv (trace past ++ events) post) :
    Inv (trace taken) s :=
  run.invariant_within (fun _ => True) Inv first
    (fun past pre act post events before _ inv _ step =>
      keep past pre act post events before inv step)
    (fun _ _ => trivial)

theorem Run.append {M : System σ α ε} {start s t : σ} {first second : List (Taken σ α ε)}
    (run : Run M start first s) (more : Run M s second t) : Run M start (first ++ second) t := by
  induction more with
  | nil =>
      rw [List.append_nil]
      exact run
  | snoc before step ih =>
      rw [← List.append_assoc]
      exact .snoc ih step

/-- From every state of the first kind some run leads to one of the second. -/
def CanReach (M : System σ α ε) (P Q : σ → Prop) : Prop :=
  ∀ s, P s → ∃ more t, Run M s more t ∧ Q t

theorem CanReach.trans {M : System σ α ε} {P Q R : σ → Prop} (first : CanReach M P Q)
    (second : CanReach M Q R) : CanReach M P R := by
  intro s here
  obtain ⟨early, mid, run, there⟩ := first s here
  obtain ⟨late, t, more, done⟩ := second mid there
  exact ⟨early ++ late, t, run.append more, done⟩

theorem CanReach.iterate {M : System σ α ε} {P : Nat → σ → Prop}
    (round : ∀ n, CanReach M (P n) (P (n + 1))) (n : Nat) : CanReach M (P 0) (P n) := by
  induction n with
  | zero =>
      intro s here
      exact ⟨[], s, .nil, here⟩
  | succ n ih => exact ih.trans (round n)

theorem Run.at {M : System σ α ε} {start s : σ} {front back : List (Taken σ α ε)}
    {x : Taken σ α ε} (run : Run M start (front ++ x :: back) s) :
    Run M start front x.pre ∧ ∃ post, M.step x.pre x.act = some (post, x.events) := by
  induction back using List.reverseRecOn generalizing s with
  | nil =>
      generalize whole : front ++ [x] = taken at run
      cases run with
      | nil => simp at whole
      | snoc before step =>
          obtain ⟨rfl, same⟩ := List.append_inj' whole rfl
          obtain rfl := List.singleton_inj.mp same
          exact ⟨before, _, step⟩
  | append_singleton back last ih =>
      rw [← List.cons_append, ← List.append_assoc] at run
      generalize whole : front ++ x :: back ++ [last] = taken at run
      cases run with
      | nil => simp at whole
      | snoc before step =>
          obtain ⟨same, _⟩ := List.append_inj' whole rfl
          exact ih (same ▸ before)

theorem trace_split {taken : List (Taken σ α ε)} {before after : List ε} {e : ε}
    (split : trace taken = before ++ e :: after) :
    ∃ front x back first last, taken = front ++ x :: back ∧ x.events = first ++ e :: last ∧
      before = trace front ++ first ∧ after = last ++ trace back := by
  induction taken generalizing before with
  | nil => simp [trace] at split
  | cons y rest ih =>
      have whole : y.events ++ trace rest = before ++ e :: after := split
      rcases List.append_eq_append_iff.mp whole with ⟨more, rfl, later⟩ | ⟨more, inside, later⟩
      · obtain ⟨front, x, back, first, last, rfl, found, rfl, ends⟩ := ih later
        exact ⟨y :: front, x, back, first, last, rfl, found, by simp [trace], ends⟩
      · cases more with
        | nil =>
            have rest : trace rest = [] ++ e :: after := later.symm
            obtain ⟨front, x, back, first, last, rfl, found, same, ends⟩ := ih rest
            refine ⟨y :: front, x, back, first, last, rfl, found, ?_, ends⟩
            rw [List.append_nil] at inside
            simp [trace, ← inside] at same ⊢
            exact same
        | cons head tail =>
            obtain ⟨rfl, rfl⟩ := List.cons.inj later
            exact ⟨[], y, rest, before, tail, rfl, inside, by simp, rfl⟩

def follow (M : System σ α ε) (ok : Taken σ α ε → Bool) : σ → List α → Option (σ × List ε)
  | s, [] => some (s, [])
  | s, a :: rest =>
      match M.step s a with
      | none => none
      | some (t, events) =>
          if ok ⟨s, a, events⟩ then
            match follow M ok t rest with
            | none => none
            | some (u, later) => some (u, events ++ later)
          else none

theorem Run.cons {M : System σ α ε} {s t u : σ} {a : α} {events : List ε}
    {taken : List (Taken σ α ε)} (step : M.step s a = some (t, events))
    (run : Run M t taken u) : Run M s (⟨s, a, events⟩ :: taken) u := by
  induction run with
  | nil =>
      have empty : Run M s [] s := Run.nil
      exact Run.snoc empty step
  | snoc before next ih =>
      have longer := Run.snoc ih next
      simpa using longer

theorem follow_run {M : System σ α ε} {ok : Taken σ α ε → Bool} {s u : σ} {acts : List α}
    {events : List ε} (done : follow M ok s acts = some (u, events)) :
    ∃ taken, Run M s taken u ∧ trace taken = events ∧ Within (fun x => ok x = true) taken := by
  induction acts generalizing s events with
  | nil =>
      simp only [follow, Option.some.injEq, Prod.mk.injEq] at done
      obtain ⟨rfl, rfl⟩ := done
      exact ⟨[], Run.nil, rfl, fun x member => by cases member⟩
  | cons a rest ih =>
      simp only [follow] at done
      split at done
      · cases done
      · rename_i t now step
        split at done
        · rename_i allowed
          split at done
          · cases done
          · rename_i v later next
            simp only [Option.some.injEq, Prod.mk.injEq] at done
            obtain ⟨rfl, rfl⟩ := done
            obtain ⟨taken, run, joined, inside⟩ := ih next
            refine ⟨⟨s, a, now⟩ :: taken, Run.cons step run, ?_, ?_⟩
            · rw [← joined]
              rfl
            · intro x member
              rcases List.mem_cons.mp member with rfl | member
              · exact allowed
              · exact inside x member
        · cases done

theorem run_of_follow (M : System σ α ε) (ok : Taken σ α ε → Bool) (s : σ) (acts : List α)
    (P : σ × List ε → Bool) (check : (follow M ok s acts).any P = true) :
    ∃ taken u, Run M s taken u ∧ Within (fun x => ok x = true) taken ∧ P (u, trace taken) = true := by
  cases done : follow M ok s acts with
  | none =>
      rw [done] at check
      cases check
  | some result =>
      obtain ⟨u, events⟩ := result
      rw [done] at check
      obtain ⟨taken, run, rfl, inside⟩ := follow_run done
      exact ⟨taken, u, run, inside, check⟩

def record (M : System σ α ε) : σ → List α → Option (σ × List (Taken σ α ε))
  | s, [] => some (s, [])
  | s, a :: rest =>
      match M.step s a with
      | none => none
      | some (t, events) => (record M t rest).map fun (u, taken) => (u, ⟨s, a, events⟩ :: taken)

theorem record_run {M : System σ α ε} {s u : σ} {acts : List α} {taken : List (Taken σ α ε)}
    (done : record M s acts = some (u, taken)) : Run M s taken u := by
  induction acts generalizing s taken with
  | nil =>
      simp only [record, Option.some.injEq, Prod.mk.injEq] at done
      obtain ⟨rfl, rfl⟩ := done
      exact Run.nil
  | cons a rest ih =>
      simp only [record] at done
      split at done
      · cases done
      · rename_i t events step
        obtain ⟨⟨v, later⟩, next, same⟩ := Option.map_eq_some_iff.mp done
        cases same
        exact Run.cons step (ih next)

theorem run_of_record (M : System σ α ε) (s : σ) (acts : List α)
    (P : σ × List (Taken σ α ε) → Bool) (check : (record M s acts).any P = true) :
    ∃ taken u, Run M s taken u ∧ P (u, taken) = true := by
  cases done : record M s acts with
  | none =>
      rw [done] at check
      cases check
  | some result =>
      obtain ⟨u, taken⟩ := result
      rw [done] at check
      exact ⟨taken, u, record_run done, check⟩

theorem Within.mono {ok weaker : Taken σ α ε → Prop} {taken : List (Taken σ α ε)}
    (inside : Within ok taken) (implies : ∀ x, ok x → weaker x) : Within weaker taken :=
  fun x member => implies x (inside x member)

end HiImCore.Transition
