import HiImCore.Lib.Pipeline

/-! A pipeline whose stages let go of nothing that they do not pass on: whatever came is at one
of the stations, was put aside, or has been delivered. -/

namespace HiImCore.Pipeline

variable {μ δ : Type}

/-- The message waits for its expansion. -/
def Pipe.Waits (s : Pipe μ δ) (m : μ) : Prop :=
  (∃ i, m ∈ s.hand i) ∨ (∃ w, m ∈ s.inbox w) ∨ ∃ w, m ∈ s.opened w

/-- The delivery is on its way to its lane. -/
def Pipe.Travels (s : Pipe μ δ) (x : μ × δ) : Prop :=
  (∃ w, x ∈ s.todo w) ∨ x ∈ s.spool ∨ x ∈ s.relay ∨ ∃ l, x ∈ s.outbox l

section Steps

variable (shard : μ → Nat) (lane : δ → Nat) (Void : μ → Prop)

structure Keeps (s : Pipe μ δ) (signals : List (Signal μ δ)) (t : Pipe μ δ) : Prop where
  hand : ∀ i m, m ∈ s.hand i → m ∈ t.hand i ∨ .admitted (shard m) m ∈ signals
  opened : ∀ w m, m ∈ s.opened w → m ∈ t.opened w ∨ (∃ ds, .expanded m ds ∈ signals) ∨ Void m
  todo : ∀ w x, x ∈ s.todo w → x ∈ t.todo w ∨ .spooled x.1 x.2 ∈ signals
  relay : ∀ x, x ∈ s.relay → x ∈ t.relay ∨ .posted (lane x.2) x.1 x.2 ∈ signals

structure Custody (log : List (Signal μ δ)) (s : Pipe μ δ) : Prop where
  message : ∀ i m, .arrived i m ∈ log → s.Waits m ∨ (∃ ds, .expanded m ds ∈ log) ∨ Void m
  delivery : ∀ m ds d, .expanded m ds ∈ log → d ∈ ds →
    s.Travels (m, d) ∨ ∃ l, .delivered l m d ∈ log

variable {shard lane Void} {log signals : List (Signal μ δ)} {s t : Pipe μ δ}

theorem custody_empty : Custody Void ([] : List (Signal μ δ)) .empty where
  message := by intro i m arrived; cases arrived
  delivery := by intro m ds d expanded; cases expanded

theorem Custody.mono {More : μ → Prop} (custody : Custody Void log s)
    (implies : ∀ m, Void m → More m) : Custody More log s where
  message := fun i m arrived => (custody.message i m arrived).imp_right (Or.imp_right (implies m))
  delivery := custody.delivery

theorem mem_after_self {α : Type} {station : Nat → List α} {i : Nat} {x : α} {contents : List α}
    (member : x ∈ contents) : x ∈ Function.update station i contents i := by
  rwa [Function.update_self]

theorem mem_without_front {α : Type} {station : Nat → List α} {i j : Nat} {x y : α} {left : List α}
    (front : station i = y :: left) (member : x ∈ station j) :
    (j = i ∧ x = y) ∨ x ∈ Function.update station i left j := by
  by_cases same : j = i
  · subst same
    rw [front] at member
    rw [Function.update_self]
    exact (List.mem_cons.mp member).imp_left fun first => ⟨rfl, first⟩
  · rw [Function.update_of_ne same]
    exact .inr member

theorem mem_with_last {α : Type} {station : Nat → List α} {i j : Nat} {x : α} {added : List α}
    (member : x ∈ station j) : x ∈ Function.update station i (station i ++ added) j := by
  by_cases same : j = i
  · subst same
    rw [Function.update_self]
    exact List.mem_append_left _ member
  · rwa [Function.update_of_ne same]

theorem Step.queues (step : Step shard lane s signals t) :
    (∀ w m, m ∈ s.inbox w → m ∈ t.inbox w ∨ m ∈ t.opened w) ∧
      (∀ x, x ∈ s.spool → x ∈ t.spool ∨ x ∈ t.relay) ∧
      ∀ l x, x ∈ s.outbox l → x ∈ t.outbox l ∨ .delivered l x.1 x.2 ∈ signals := by
  cases step with
  | enqueue i m left held =>
      exact ⟨fun w x member => .inl (mem_with_last member), fun x => .inl, fun l x => .inl⟩
  | take w m left front idle =>
      refine ⟨fun v x member => ?_, fun x => .inl, fun l x => .inl⟩
      rcases mem_without_front front member with ⟨rfl, rfl⟩ | stays
      · exact .inr (mem_after_self (List.mem_singleton.mpr rfl))
      · exact .inl stays
  | send w m d left next =>
      exact ⟨fun w x => .inl, fun x member => .inl (List.mem_append_left _ member), fun l x => .inl⟩
  | pick m d left front idle =>
      refine ⟨fun w x => .inl, fun x member => ?_, fun l x => .inl⟩
      rw [front] at member
      exact (List.mem_cons.mp member).symm.imp id List.mem_singleton.mpr
  | post m d left held =>
      exact ⟨fun w x => .inl, fun x => .inl, fun l x member => .inl (mem_with_last member)⟩
  | deliver l m d left front =>
      refine ⟨fun w x => .inl, fun x => .inl, fun k x member => ?_⟩
      rcases mem_without_front front member with ⟨rfl, rfl⟩ | stays
      · exact .inr (List.mem_singleton.mpr rfl)
      · exact .inl stays
  | _ => exact ⟨fun w x => .inl, fun x => .inl, fun l x => .inl⟩

theorem Step.receives (step : Step shard lane s signals t) :
    (∀ i m, .arrived i m ∈ signals → m ∈ t.hand i) ∧
      (∀ w m, .admitted w m ∈ signals → m ∈ t.inbox w) ∧
      (∀ m ds, .expanded m ds ∈ signals → ∃ w, ∀ d ∈ ds, (m, d) ∈ t.todo w) ∧
      (∀ m d, .spooled m d ∈ signals → (m, d) ∈ t.spool) ∧
      ∀ l m d, .posted l m d ∈ signals → (m, d) ∈ t.outbox l := by
  cases step with
  | arrive i m free => simp
  | enqueue i m left held => simp
  | expand w m ds next idle =>
      simp only [List.mem_singleton, Signal.expanded.injEq, reduceCtorEq, false_implies,
        implies_true, true_and, and_true]
      rintro x es ⟨rfl, rfl⟩
      exact ⟨w, fun d member => by simp [member]⟩
  | send w m d left next => simp
  | post m d left held =>
      simp only [List.mem_singleton, Signal.posted.injEq, reduceCtorEq, false_implies, implies_true,
        true_and]
      rintro l x y ⟨rfl, rfl, rfl⟩
      exact mem_after_self (by simp)
  | _ => simp

theorem Custody.step (custody : Custody Void log s) (step : Step shard lane s signals t)
    (keeps : Keeps shard lane Void s signals t) : Custody Void (log ++ signals) t := by
  obtain ⟨inbox, spool, outbox⟩ := step.queues
  obtain ⟨arrives, admits, expands, spools, posts⟩ := step.receives
  constructor
  · intro i m arrived
    rcases List.mem_append.mp arrived with old | new
    · rcases custody.message i m old with (⟨j, held⟩ | ⟨w, queued⟩ | ⟨w, taken⟩) | ⟨ds, expanded⟩ | void
      · rcases keeps.hand j m held with still | admitted
        · exact .inl (.inl ⟨j, still⟩)
        · exact .inl (.inr (.inl ⟨shard m, admits _ m admitted⟩))
      · rcases inbox w m queued with still | taken
        · exact .inl (.inr (.inl ⟨w, still⟩))
        · exact .inl (.inr (.inr ⟨w, taken⟩))
      · rcases keeps.opened w m taken with still | ⟨ds, expanded⟩ | void
        · exact .inl (.inr (.inr ⟨w, still⟩))
        · exact .inr (.inl ⟨ds, List.mem_append_right _ expanded⟩)
        · exact .inr (.inr void)
      · exact .inr (.inl ⟨ds, List.mem_append_left _ expanded⟩)
      · exact .inr (.inr void)
    · exact .inl (.inl ⟨i, arrives i m new⟩)
  · intro m ds d expanded named
    rcases List.mem_append.mp expanded with old | new
    · rcases custody.delivery m ds d old named with
        (⟨w, due⟩ | spooled | relayed | ⟨l, posted⟩) | ⟨l, delivered⟩
      · rcases keeps.todo w (m, d) due with still | spooled
        · exact .inl (.inl ⟨w, still⟩)
        · exact .inl (.inr (.inl (spools m d spooled)))
      · rcases spool (m, d) spooled with still | relayed
        · exact .inl (.inr (.inl still))
        · exact .inl (.inr (.inr (.inl relayed)))
      · rcases keeps.relay (m, d) relayed with still | posted
        · exact .inl (.inr (.inr (.inl still)))
        · exact .inl (.inr (.inr (.inr ⟨lane d, posts _ m d posted⟩)))
      · rcases outbox l (m, d) posted with still | delivered
        · exact .inl (.inr (.inr (.inr ⟨l, still⟩)))
        · exact .inr ⟨l, List.mem_append_right _ delivered⟩
      · exact .inr ⟨l, List.mem_append_left _ delivered⟩
    · obtain ⟨w, due⟩ := expands m ds new
      exact .inl (.inl ⟨w, due d named⟩)

end Steps

end HiImCore.Pipeline
