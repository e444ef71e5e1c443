import Mathlib.Data.List.Induction

/-! Histories replayed on an abstract state: every event changes the state and is
subject to a condition on the state it meets. -/

namespace HiImCore.Replay

variable {σ τ ε δ : Type} (apply : σ → ε → σ)

/-- The state after a history. -/
def replay (s : σ) (history : List ε) : σ := history.foldl apply s

def Along (P : σ → ε → Prop) : σ → List ε → Prop
  | _, [] => True
  | s, e :: later => P s e ∧ Along P (apply s e) later

@[simp] theorem replay_nil (s : σ) : replay apply s [] = s := rfl

@[simp] theorem replay_cons (s : σ) (e : ε) (later : List ε) :
    replay apply s (e :: later) = replay apply (apply s e) later := rfl

theorem replay_append (s : σ) (first second : List ε) :
    replay apply s (first ++ second) = replay apply (replay apply s first) second :=
  List.foldl_append

theorem along_append (P : σ → ε → Prop) (s : σ) (first second : List ε) :
    Along apply P s (first ++ second) ↔
      Along apply P s first ∧ Along apply P (replay apply s first) second := by
  induction first generalizing s with
  | nil => simp [Along]
  | cons e later ih => simp [Along, ih, and_assoc]

theorem along_and (P Q : σ → ε → Prop) (s : σ) (history : List ε) :
    Along apply (fun s e => P s e ∧ Q s e) s history ↔
      Along apply P s history ∧ Along apply Q s history := by
  induction history generalizing s with
  | nil => simp [Along]
  | cons e later ih =>
      simp only [Along, ih]
      constructor
      · rintro ⟨⟨p, q⟩, ps, qs⟩
        exact ⟨⟨p, ps⟩, q, qs⟩
      · rintro ⟨⟨p, ps⟩, q, qs⟩
        exact ⟨⟨p, q⟩, ps, qs⟩

theorem along_invariant {P : σ → ε → Prop} {s : σ} {history : List ε}
    (Inv : List ε → σ → Prop) (along : Along apply P s history) (first : Inv [] s)
    (keep : ∀ past t e, Along apply P s past → replay apply s past = t → Inv past t → P t e →
      Inv (past ++ [e]) (apply t e)) :
    Inv history (replay apply s history) := by
  induction history using List.reverseRecOn with
  | nil => exact first
  | append_singleton past e ih =>
      obtain ⟨before, now, _⟩ := (along_append apply P s past [e]).mp along
      rw [replay_append]
      exact keep past _ e before rfl (ih before) now

theorem replay_simulates {track : τ → δ → τ} (view : σ → τ) (seen : ε → δ)
    (step : ∀ s e, view (apply s e) = track (view s) (seen e)) (s : σ) (history : List ε) :
    view (replay apply s history) = replay track (view s) (history.map seen) := by
  induction history generalizing s with
  | nil => rfl
  | cons e later ih => rw [replay_cons, ih, step, List.map_cons, replay_cons]

theorem along_at {P : σ → ε → Prop} {s : σ} {past later : List ε} {e : ε}
    (along : Along apply P s (past ++ e :: later)) : P (replay apply s past) e :=
  ((along_append apply P s past (e :: later)).mp along).2.1

def Since (P Q : ε → Prop) (history : List ε) : Prop :=
  ∃ before e after, history = before ++ e :: after ∧ P e ∧ ∀ x ∈ after, ¬ Q x

variable {P Q : ε → Prop} {past : List ε} {e : ε} {n : Nat}

theorem since_now (now : P e) : Since P Q (past ++ [e]) :=
  ⟨past, e, [], rfl, now, fun x member => by cases member⟩

theorem since_still (since : Since P Q past) (still : ¬ Q e) : Since P Q (past ++ [e]) := by
  obtain ⟨before, first, after, rfl, begun, kept⟩ := since
  refine ⟨before, first, after ++ [e], by simp, begun, ?_⟩
  intro x member
  rcases List.mem_append.mp member with old | new
  · exact kept x old
  · rwa [List.mem_singleton.mp new]

theorem Since.imp {R : ε → Prop} (since : Since P Q past) (implies : ∀ e, P e → R e) :
    Since R Q past := by
  obtain ⟨before, e, after, rfl, begun, kept⟩ := since
  exact ⟨before, e, after, rfl, implies e begun, kept⟩

theorem since_mem (since : Since P Q past) : ∃ e ∈ past, P e := by
  obtain ⟨before, e, after, rfl, begun, _⟩ := since
  exact ⟨e, by simp, begun⟩

theorem snoc_eq_append_cons {past before after : List ε} {last e : ε} :
    past ++ [last] = before ++ e :: after ↔
      (past = before ∧ last = e ∧ after = []) ∨
        ∃ later, after = later ++ [last] ∧ past = before ++ e :: later := by
  constructor
  · intro split
    rcases List.eq_nil_or_concat after with rfl | ⟨later, x, rfl⟩
    · obtain ⟨same, ends⟩ := List.append_inj' split rfl
      exact .inl ⟨same, List.singleton_inj.mp ends, rfl⟩
    · rw [List.concat_eq_append, ← List.cons_append, ← List.append_assoc] at split
      obtain ⟨same, ends⟩ := List.append_inj' split rfl
      obtain rfl := List.singleton_inj.mp ends
      exact .inr ⟨later, List.concat_eq_append, same⟩
  · rintro (⟨rfl, rfl, rfl⟩ | ⟨later, rfl, rfl⟩)
    · rfl
    · simp

theorem since_snoc : Since P Q (past ++ [e]) ↔ P e ∨ Since P Q past ∧ ¬ Q e := by
  constructor
  · rintro ⟨before, first, after, split, begun, kept⟩
    rcases snoc_eq_append_cons.mp split with ⟨rfl, rfl, rfl⟩ | ⟨later, rfl, rfl⟩
    · exact Or.inl begun
    · refine Or.inr ⟨⟨before, first, later, rfl, begun, ?_⟩, ?_⟩
      · intro x member
        exact kept x (List.mem_append_left _ member)
      · exact kept e (List.mem_append_right _ (List.mem_singleton.mpr rfl))
  · rintro (now | ⟨since, still⟩)
    · exact since_now now
    · exact since_still since still

theorem not_since_nil : ¬ Since P Q [] := by
  rintro ⟨before, e, after, split, _⟩
  cases before <;> cases split

def BegunAt (P Q : ε → Prop) (history : List ε) (n : Nat) : Prop :=
  ∃ before e after, history = before ++ e :: after ∧ before.length = n ∧ P e ∧
    ¬ Since P Q before ∧ ∀ x ∈ after, ¬ Q x

theorem BegunAt.lt (begun : BegunAt P Q past n) : n < past.length := by
  obtain ⟨before, e, after, rfl, rfl, _⟩ := begun
  rw [List.length_append, List.length_cons]
  omega

theorem begunAt_now (now : P e) (first : ¬ Since P Q past) : BegunAt P Q (past ++ [e]) past.length :=
  ⟨past, e, [], rfl, rfl, now, first, fun x member => by cases member⟩

theorem BegunAt.still (begun : BegunAt P Q past n) (still : ¬ Q e) : BegunAt P Q (past ++ [e]) n := by
  obtain ⟨before, first, after, rfl, rfl, starts, fresh, kept⟩ := begun
  refine ⟨before, first, after ++ [e], by simp, rfl, starts, fresh, ?_⟩
  intro x member
  rcases List.mem_append.mp member with old | new
  · exact kept x old
  · rwa [List.mem_singleton.mp new]

theorem since_begunAt (apart : ∀ e, P e → ¬ Q e) {history : List ε} (since : Since P Q history) :
    ∃ n, BegunAt P Q history n := by
  induction history using List.reverseRecOn with
  | nil => exact absurd since not_since_nil
  | append_singleton past e ih =>
      by_cases before : Since P Q past
      · obtain ⟨n, begun⟩ := ih before
        refine ⟨n, begun.still ?_⟩
        rcases since_snoc.mp since with now | ⟨_, still⟩
        · exact apart e now
        · exact still
      · rcases since_snoc.mp since with now | ⟨early, _⟩
        · exact ⟨past.length, begunAt_now now before⟩
        · exact absurd early before

end HiImCore.Replay
