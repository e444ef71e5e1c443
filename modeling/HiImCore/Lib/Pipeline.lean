import Mathlib.Data.List.Basic
import Mathlib.Logic.Function.Basic

/-! Messages that travel from producers through sharded queues, are expanded into
deliveries by one worker per shard, and reach the lanes of their destinations through
one spool. Any stage may lose what it holds; none may overtake. -/

namespace HiImCore.Pipeline

/-- What lies at each station, next to leave first. -/
structure Pipe (μ δ : Type) where
  hand : Nat → List μ
  inbox : Nat → List μ
  opened : Nat → List μ
  todo : Nat → List (μ × δ)
  spool : List (μ × δ)
  relay : List (μ × δ)
  outbox : Nat → List (μ × δ)

inductive Signal (μ δ : Type) where
  | arrived (i : Nat) (m : μ)
  | admitted (w : Nat) (m : μ)
  | opened (w : Nat) (m : μ)
  | expanded (m : μ) (ds : List δ)
  | spooled (m : μ) (d : δ)
  | relayed (m : μ) (d : δ)
  | posted (l : Nat) (m : μ) (d : δ)
  | delivered (l : Nat) (m : μ) (d : δ)

variable {μ δ : Type}

def Pipe.empty : Pipe μ δ :=
  ⟨fun _ => [], fun _ => [], fun _ => [], fun _ => [], [], [], fun _ => []⟩

section Runs

variable (shard : μ → Nat) (lane : δ → Nat)

inductive Step : Pipe μ δ → List (Signal μ δ) → Pipe μ δ → Prop
  | rest (s) : Step s [] s
  | arrive (s i m) (free : s.hand i = []) :
      Step s [.arrived i m] { s with hand := Function.update s.hand i [m] }
  | abandon (s i m left) (held : s.hand i = m :: left) :
      Step s [] { s with hand := Function.update s.hand i left }
  | enqueue (s i m left) (held : s.hand i = m :: left) :
      Step s [.admitted (shard m) m]
        { s with
          hand := Function.update s.hand i left
          inbox := Function.update s.inbox (shard m) (s.inbox (shard m) ++ [m]) }
  | take (s w m left) (front : s.inbox w = m :: left) (idle : s.opened w = []) :
      Step s [.opened w m]
        { s with
          inbox := Function.update s.inbox w left
          opened := Function.update s.opened w [m] }
  | ignore (s w) : Step s [] { s with opened := Function.update s.opened w [] }
  | expand (s w m ds) (next : s.opened w = [m]) (idle : s.todo w = []) :
      Step s [.expanded m ds]
        { s with
          opened := Function.update s.opened w []
          todo := Function.update s.todo w (ds.map (Prod.mk m)) }
  | cancel (s w) : Step s [] { s with todo := Function.update s.todo w [] }
  | send (s w m d left) (next : s.todo w = (m, d) :: left) :
      Step s [.spooled m d]
        { s with todo := Function.update s.todo w left, spool := s.spool ++ [(m, d)] }
  | pick (s m d left) (front : s.spool = (m, d) :: left) (idle : s.relay = []) :
      Step s [.relayed m d] { s with spool := left, relay := [(m, d)] }
  | lose (s) : Step s [] { s with relay := [] }
  | post (s m d left) (held : s.relay = (m, d) :: left) :
      Step s [.posted (lane d) m d]
        { s with
          relay := left
          outbox := Function.update s.outbox (lane d) (s.outbox (lane d) ++ [(m, d)]) }
  | deliver (s l m d left) (front : s.outbox l = (m, d) :: left) :
      Step s [.delivered l m d] { s with outbox := Function.update s.outbox l left }

inductive Flow : List (Signal μ δ) → Pipe μ δ → Prop
  | empty : Flow [] .empty
  | snoc {log s signals t} : Flow log s → Step shard lane s signals t → Flow (log ++ signals) t

def Backed (log : List (Signal μ δ)) : Signal μ δ → Prop
  | .arrived _ _ => True
  | .admitted w m => w = shard m ∧ ∃ i, .arrived i m ∈ log
  | .opened w m => .admitted w m ∈ log
  | .expanded m _ => .opened (shard m) m ∈ log
  | .spooled m d => ∃ ds, .expanded m ds ∈ log ∧ d ∈ ds
  | .relayed m d => .spooled m d ∈ log
  | .posted l m d => l = lane d ∧ .relayed m d ∈ log
  | .delivered l m d => .posted l m d ∈ log

theorem Backed.mono {log more : List (Signal μ δ)} {x : Signal μ δ}
    (backed : Backed shard lane log x) : Backed shard lane (log ++ more) x := by
  have keep : ∀ y, y ∈ log → y ∈ log ++ more := fun y => List.mem_append_left more
  cases x with
  | arrived i m => trivial
  | admitted w m => exact ⟨backed.1, backed.2.imp fun _ => keep _⟩
  | opened w m => exact keep _ backed
  | expanded m ds => exact keep _ backed
  | spooled m d => exact backed.imp fun _ found => ⟨keep _ found.1, found.2⟩
  | relayed m d => exact keep _ backed
  | posted l m d => exact ⟨backed.1, keep _ backed.2⟩
  | delivered l m d => exact keep _ backed

structure Located (log : List (Signal μ δ)) (s : Pipe μ δ) : Prop where
  hand : ∀ i m, m ∈ s.hand i → .arrived i m ∈ log
  inbox : ∀ w m, m ∈ s.inbox w → w = shard m ∧ .admitted w m ∈ log
  opened : ∀ w m, m ∈ s.opened w → w = shard m ∧ .opened w m ∈ log
  todo : ∀ w x, x ∈ s.todo w → w = shard x.1 ∧ ∃ ds, .expanded x.1 ds ∈ log ∧ x.2 ∈ ds
  spool : ∀ x, x ∈ s.spool → .spooled x.1 x.2 ∈ log
  relay : ∀ x, x ∈ s.relay → .relayed x.1 x.2 ∈ log
  outbox : ∀ l x, x ∈ s.outbox l → .posted l x.1 x.2 ∈ log

theorem located_empty : Located shard ([] : List (Signal μ δ)) .empty where
  hand := by intro i m member; cases member
  inbox := by intro w m member; cases member
  opened := by intro w m member; cases member
  todo := by intro w x member; cases member
  spool := by intro x member; cases member
  relay := by intro x member; cases member
  outbox := by intro l x member; cases member

variable {shard lane} {log more : List (Signal μ δ)} {s t : Pipe μ δ}

theorem Located.mono (located : Located shard log s) : Located shard (log ++ more) s where
  hand := fun i m member => List.mem_append_left _ (located.hand i m member)
  inbox := fun w m member =>
    (located.inbox w m member).imp_right (List.mem_append_left _)
  opened := fun w m member =>
    (located.opened w m member).imp_right (List.mem_append_left _)
  todo := fun w x member =>
    (located.todo w x member).imp_right
      (Exists.imp fun _ => And.imp_left (List.mem_append_left _))
  spool := fun x member => List.mem_append_left _ (located.spool x member)
  relay := fun x member => List.mem_append_left _ (located.relay x member)
  outbox := fun l x member => List.mem_append_left _ (located.outbox l x member)

section Stations

variable {α : Type} {station : Nat → List α} {i j : Nat} {x y : α} {left : List α}

theorem mem_after_front (front : station i = y :: left)
    (member : x ∈ Function.update station i left j) : x ∈ station j := by
  rw [Function.update_apply] at member
  split at member
  · rename_i here
    rw [here, front]
    exact List.mem_cons_of_mem y member
  · exact member

theorem mem_after_clear (member : x ∈ Function.update station i [] j) : x ∈ station j := by
  rw [Function.update_apply] at member
  split at member
  · cases member
  · exact member

theorem mem_after_put {added : List α}
    (member : x ∈ Function.update station i (station i ++ added) j) :
    x ∈ station j ∨ j = i ∧ x ∈ added := by
  rw [Function.update_apply] at member
  split at member
  · rename_i here
    subst here
    exact (List.mem_append.mp member).imp_right fun last => ⟨rfl, last⟩
  · exact Or.inl member

theorem mem_after_set {contents : List α} (member : x ∈ Function.update station i contents j) :
    x ∈ station j ∨ j = i ∧ x ∈ contents := by
  rw [Function.update_apply] at member
  split at member
  · rename_i here
    exact Or.inr ⟨here, member⟩
  · exact Or.inl member

end Stations

theorem Located.backed {signals : List (Signal μ δ)} (located : Located shard log s)
    (step : Step shard lane s signals t) : ∀ x ∈ signals, Backed shard lane log x := by
  cases step with
  | rest | abandon | ignore | cancel | lose => exact fun x member => by cases member
  | arrive i m free => exact List.forall_mem_singleton.mpr trivial
  | enqueue i m left held =>
      exact List.forall_mem_singleton.mpr ⟨rfl, i, located.hand i m (by simp [held])⟩
  | take w m left front idle =>
      exact List.forall_mem_singleton.mpr (located.inbox w m (by simp [front])).2
  | expand w m ds next idle =>
      obtain ⟨rfl, found⟩ := located.opened w m (by simp [next])
      exact List.forall_mem_singleton.mpr found
  | send w m d left next =>
      exact List.forall_mem_singleton.mpr (located.todo w (m, d) (by simp [next])).2
  | pick m d left front idle =>
      exact List.forall_mem_singleton.mpr (located.spool (m, d) (by simp [front]))
  | post m d left held =>
      exact List.forall_mem_singleton.mpr ⟨rfl, located.relay (m, d) (by simp [held])⟩
  | deliver l m d left front =>
      exact List.forall_mem_singleton.mpr (located.outbox l (m, d) (by simp [front]))

theorem Located.step {signals : List (Signal μ δ)} (located : Located shard log s)
    (step : Step shard lane s signals t) : Located shard (log ++ signals) t := by
  have grown : Located shard (log ++ signals) s := located.mono
  have new : ∀ x ∈ signals, x ∈ log ++ signals := fun x => List.mem_append_right log
  cases step with
  | rest => exact grown
  | arrive i m free =>
      refine { grown with hand := ?_ }
      intro j x member
      rcases mem_after_set member with old | ⟨rfl, last⟩
      · exact grown.hand j x old
      · obtain rfl := List.mem_singleton.mp last
        exact new _ (List.mem_singleton.mpr rfl)
  | abandon i m left held =>
      exact { grown with hand := fun j x member => grown.hand j x (mem_after_front held member) }
  | enqueue i m left held =>
      refine
        { grown with
          hand := fun j x member => grown.hand j x (mem_after_front held member)
          inbox := ?_ }
      intro w x member
      rcases mem_after_put member with old | ⟨rfl, last⟩
      · exact grown.inbox w x old
      · obtain rfl := List.mem_singleton.mp last
        exact ⟨rfl, new _ (List.mem_singleton.mpr rfl)⟩
  | take w m left front idle =>
      refine
        { grown with
          inbox := fun v x member => grown.inbox v x (mem_after_front front member)
          opened := ?_ }
      intro v x member
      rcases mem_after_set member with old | ⟨rfl, last⟩
      · exact grown.opened v x old
      · obtain rfl := List.mem_singleton.mp last
        exact ⟨(located.inbox v x (by simp [front])).1, new _ (List.mem_singleton.mpr rfl)⟩
  | ignore w =>
      exact { grown with opened := fun v x member => grown.opened v x (mem_after_clear member) }
  | expand w m ds next idle =>
      refine
        { grown with
          opened := fun v x member => grown.opened v x (mem_after_clear member)
          todo := ?_ }
      intro v x member
      rcases mem_after_set member with old | ⟨rfl, inside⟩
      · exact grown.todo v x old
      · obtain ⟨d, wanted, rfl⟩ := List.mem_map.mp inside
        exact ⟨(located.opened v m (by simp [next])).1, ds, new _ (List.mem_singleton.mpr rfl),
          wanted⟩
  | cancel w =>
      exact { grown with todo := fun v x member => grown.todo v x (mem_after_clear member) }
  | send w m d left next =>
      refine
        { grown with
          todo := fun v x member => grown.todo v x (mem_after_front next member)
          spool := ?_ }
      intro x member
      rcases List.mem_append.mp member with old | last
      · exact grown.spool x old
      · obtain rfl := List.mem_singleton.mp last
        exact new _ (List.mem_singleton.mpr rfl)
  | pick m d left front idle =>
      refine { grown with spool := ?_, relay := ?_ }
      · intro x member
        exact grown.spool x (by rw [front]; exact List.mem_cons_of_mem _ member)
      · intro x member
        obtain rfl := List.mem_singleton.mp member
        exact new _ (List.mem_singleton.mpr rfl)
  | lose => exact { grown with relay := fun x member => by cases member }
  | post m d left held =>
      refine { grown with relay := ?_, outbox := ?_ }
      · intro x member
        exact grown.relay x (by rw [held]; exact List.mem_cons_of_mem _ member)
      · intro l x member
        rcases mem_after_put member with old | ⟨rfl, last⟩
        · exact grown.outbox l x old
        · obtain rfl := List.mem_singleton.mp last
          exact new _ (List.mem_singleton.mpr rfl)
  | deliver l m d left front =>
      exact { grown with outbox := fun k x member => grown.outbox k x (mem_after_front front member) }

theorem Flow.located (flow : Flow shard lane log s) : Located shard log s := by
  induction flow with
  | empty => exact located_empty shard
  | snoc before step ih => exact ih.step step

theorem Step.signals_length {signals : List (Signal μ δ)} (step : Step shard lane s signals t) :
    signals.length ≤ 1 := by
  cases step <;> simp

theorem Flow.backed (flow : Flow shard lane log s) {before later : List (Signal μ δ)}
    {x : Signal μ δ} (split : log = before ++ x :: later) : Backed shard lane before x := by
  induction flow generalizing later with
  | empty => simp at split
  | @snoc log s signals t earlier step ih =>
      cases signals with
      | nil => exact ih (List.append_nil log ▸ split)
      | cons y rest =>
          obtain rfl := List.eq_nil_of_length_eq_zero
            (Nat.le_zero.mp (Nat.le_of_succ_le_succ step.signals_length))
          -- the passage is the new signal or one of the log before it
          rcases List.eq_nil_or_concat later with rfl | ⟨front, last, rfl⟩
          · obtain ⟨rfl, same⟩ := List.append_inj' split rfl
            obtain rfl := List.singleton_inj.mp same
            exact earlier.located.backed step y (List.mem_singleton.mpr rfl)
          · rw [List.concat_eq_append, ← List.cons_append, ← List.append_assoc] at split
            exact ih (List.append_inj' split rfl).1

variable (shard lane) in
def Backs (log : List (Signal μ δ)) : Prop := ∀ x ∈ log, Backed shard lane log x

theorem Flow.backs_front (flow : Flow shard lane (log ++ more) s) : Backs shard lane log := by
  intro x member
  obtain ⟨before, later, rfl⟩ := List.append_of_mem member
  rw [List.append_assoc, List.cons_append] at flow
  exact (flow.backed rfl).mono

theorem Flow.backs (flow : Flow shard lane log s) : Backs shard lane log := by
  rw [← List.append_nil log] at flow
  exact flow.backs_front

section Chains

variable {l : Nat} {m : μ} {d : δ} {ds : List δ} (backs : Backs shard lane log)
include backs

theorem Backs.admitted {w : Nat} (admitted : .admitted w m ∈ log) : ∃ i, .arrived i m ∈ log :=
  (backs _ admitted).2

theorem Backs.expanded (expanded : .expanded m ds ∈ log) : ∃ i, .arrived i m ∈ log :=
  backs.admitted (backs _ (backs _ expanded))

theorem Backs.spooled (spooled : .spooled m d ∈ log) : ∃ ds, .expanded m ds ∈ log ∧ d ∈ ds :=
  backs _ spooled

theorem Backs.posted (posted : .posted l m d ∈ log) :
    l = lane d ∧ ∃ ds, .expanded m ds ∈ log ∧ d ∈ ds :=
  have relayed := backs _ posted
  ⟨relayed.1, backs.spooled (backs _ relayed.2)⟩

theorem Backs.delivered (delivered : .delivered l m d ∈ log) :
    l = lane d ∧ ∃ ds, .expanded m ds ∈ log ∧ d ∈ ds :=
  backs.posted (backs _ delivered)

end Chains

end Runs

section Order

variable {shard : μ → Nat} {lane : δ → Nat} {log signals : List (Signal μ δ)} {s t : Pipe μ δ}
  (A : μ → Bool) (D : δ → Bool)

def arrivals : List (Signal μ δ) → List μ :=
  List.filterMap fun | .arrived _ m => some m | _ => none

def expansions : List (Signal μ δ) → List μ :=
  List.filterMap fun | .expanded m _ => some m | _ => none

def deliveries (l : Nat) : List (Signal μ δ) → List (μ × δ) :=
  List.filterMap fun | .delivered k m d => if k = l then some (m, d) else none | _ => none

@[simp] theorem arrivals_append (log more : List (Signal μ δ)) :
    arrivals (log ++ more) = arrivals log ++ arrivals more := List.filterMap_append

@[simp] theorem expansions_append (log more : List (Signal μ δ)) :
    expansions (log ++ more) = expansions log ++ expansions more := List.filterMap_append

@[simp] theorem deliveries_append (l : Nat) (log more : List (Signal μ δ)) :
    deliveries l (log ++ more) = deliveries l log ++ deliveries l more := List.filterMap_append

def entering (i w : Nat) (s : Pipe μ δ) : List μ :=
  (s.opened w).filter A ++ ((s.inbox w).filter A ++ (s.hand i).filter A)

def chosen (items : List (μ × δ)) : List μ := (items.filter fun x => A x.1 && D x.2).map Prod.fst

def leaving (w l : Nat) (s : Pipe μ δ) : List μ :=
  chosen A D (s.outbox l) ++ (chosen A D s.relay ++ (chosen A D s.spool ++ chosen A D (s.todo w)))

@[simp] theorem chosen_nil : chosen A D [] = [] := rfl

@[simp] theorem chosen_append (first second : List (μ × δ)) :
    chosen A D (first ++ second) = chosen A D first ++ chosen A D second := by
  simp [chosen]

theorem chosen_cons (x : μ × δ) (items : List (μ × δ)) :
    chosen A D (x :: items) = (if A x.1 && D x.2 then [x.1] else []) ++ chosen A D items := by
  cases wanted : A x.1 && D x.2 <;> simp [chosen, wanted]

variable {A D} {i w l : Nat}

theorem filter_update {α : Type} {P : α → Bool} {station : Nat → List α} {j k : Nat}
    {contents : List α} (same : j = k → contents.filter P = (station k).filter P) :
    (Function.update station k contents j).filter P = (station j).filter P := by
  rw [Function.update_apply]
  split
  · rename_i here
    rw [same here, here]
  · rfl

theorem update_sublist {α : Type} {station : Nat → List α} {j k : Nat} {contents : List α}
    (fewer : contents.Sublist (station k)) :
    (Function.update station k contents j).Sublist (station j) := by
  rw [Function.update_apply]
  split
  · rename_i here
    rw [here]
    exact fewer
  · exact List.Sublist.refl _

theorem entering_step (located : Located shard log s) (step : Step shard lane s signals t)
    (shards : ∀ m, A m = true → shard m = w)
    (home : ∀ j m, .arrived j m ∈ log ++ signals → A m = true → j = i)
    (before : ((expansions log).filter A ++ entering A i w s).Sublist ((arrivals log).filter A)) :
    ((expansions (log ++ signals)).filter A ++ entering A i w t).Sublist
      ((arrivals (log ++ signals)).filter A) := by
  have quiet : expansions signals = [] → arrivals signals = [] →
      (entering A i w t).Sublist (entering A i w s) →
      ((expansions (log ++ signals)).filter A ++ entering A i w t).Sublist
        ((arrivals (log ++ signals)).filter A) := by
    intro noExpansion noArrival fewer
    rw [expansions_append, arrivals_append, noExpansion, noArrival, List.append_nil,
      List.append_nil]
    exact (fewer.append_left _).trans before
  cases step with
  | rest | cancel | send | pick | lose | post | deliver => exact quiet rfl rfl (List.Sublist.refl _)
  | arrive j m free =>
      by_cases wanted : A m = true
      · obtain rfl := home j m (by simp) wanted
        have last : entering A j w { s with hand := Function.update s.hand j [m] } =
            entering A j w s ++ [m] := by
          simp [entering, free, wanted]
        rw [last]
        simpa [expansions, arrivals, wanted] using before.append_right [m]
      · have same : entering A i w { s with hand := Function.update s.hand j [m] } =
            entering A i w s := by
          simp only [entering]
          rw [filter_update fun _ => by simp [free, wanted]]
        rw [same]
        simpa [expansions, arrivals, wanted] using before
  | abandon j m left held =>
      refine quiet rfl rfl (((List.Sublist.filter A ?_).append_left _).append_left _)
      exact update_sublist (by rw [held]; exact List.sublist_cons_self m left)
  | enqueue j m left held =>
      refine quiet rfl rfl (List.Sublist.append_left ?_ _)
      by_cases wanted : A m = true
      · obtain rfl := home j m
          (List.mem_append_left _ (located.hand j m (by simp [held]))) wanted
        obtain rfl := shards m wanted
        simp [held, wanted]
      · rw [filter_update fun _ => by simp [wanted], filter_update fun _ => by simp [held, wanted]]
  | take v m left front idle =>
      refine quiet rfl rfl ?_
      by_cases here : w = v
      · subst here
        simp only [entering, Function.update_self, idle, front, List.filter_nil, List.nil_append,
          ← List.append_assoc, ← List.filter_append, List.singleton_append]
        exact List.Sublist.refl _
      · simp only [entering, Function.update_of_ne here]
        exact List.Sublist.refl _
  | ignore v =>
      refine quiet rfl rfl (List.Sublist.append_right (List.Sublist.filter A ?_) _)
      exact update_sublist (List.nil_sublist _)
  | expand v m ds next idle =>
      have home := (located.opened v m (by simp [next])).1
      by_cases wanted : A m = true
      · obtain rfl : v = w := home.trans (shards m wanted)
        simpa [entering, expansions, arrivals, next, wanted] using before
      · have same : (Function.update s.opened v [] w).filter A = (s.opened w).filter A :=
          filter_update fun _ => by simp [next, wanted]
        simpa [entering, expansions, arrivals, same, wanted] using before

theorem Flow.entering (flow : Flow shard lane log s) (shards : ∀ m, A m = true → shard m = w)
    (home : ∀ j m, .arrived j m ∈ log → A m = true → j = i) :
    ((expansions log).filter A ++ Pipeline.entering A i w s).Sublist ((arrivals log).filter A) := by
  induction flow with
  | empty => exact List.Sublist.refl _
  | snoc earlier step ih =>
      refine entering_step earlier.located step shards home (ih ?_)
      exact fun j m member => home j m (List.mem_append_left _ member)

theorem chosen_sublist {first second : List (μ × δ)} (fewer : first.Sublist second) :
    (chosen A D first).Sublist (chosen A D second) :=
  (fewer.filter _).map _

theorem chosen_expansion {m : μ} {ds : List δ} (single : A m = true → (ds.filter D).length ≤ 1) :
    (chosen A D (ds.map (Prod.mk m))).Sublist ([m].filter A) := by
  cases wanted : A m with
  | false => simp [chosen, wanted]
  | true =>
      have repeated : chosen A D (ds.map (Prod.mk m)) = List.replicate (ds.filter D).length m := by
        rw [chosen, List.filter_map, List.map_map]
        simp [Function.comp_def, wanted]
      rw [repeated, List.filter_singleton, wanted]
      exact (List.replicate_sublist_replicate m).mpr (single wanted)

theorem chosen_update {station : Nat → List (μ × δ)} {j k : Nat} {contents : List (μ × δ)}
    (same : j = k → chosen A D contents = chosen A D (station k)) :
    chosen A D (Function.update station k contents j) = chosen A D (station j) := by
  rw [Function.update_apply]
  split
  · rename_i here
    rw [same here, here]
  · rfl

theorem leaving_step (located : Located shard log s) (step : Step shard lane s signals t)
    (shards : ∀ m, A m = true → shard m = w) (lanes : ∀ d, D d = true → lane d = l)
    (single : ∀ m ds, .expanded m ds ∈ log ++ signals → A m = true → (ds.filter D).length ≤ 1)
    (before : (chosen A D (deliveries l log) ++ leaving A D w l s).Sublist
      ((expansions log).filter A)) :
    (chosen A D (deliveries l (log ++ signals)) ++ leaving A D w l t).Sublist
      ((expansions (log ++ signals)).filter A) := by
  have quiet : deliveries l signals = [] → expansions signals = [] →
      (leaving A D w l t).Sublist (leaving A D w l s) →
      (chosen A D (deliveries l (log ++ signals)) ++ leaving A D w l t).Sublist
        ((expansions (log ++ signals)).filter A) := by
    intro noDelivery noExpansion fewer
    rw [deliveries_append, expansions_append, noDelivery, noExpansion, List.append_nil,
      List.append_nil]
    exact (fewer.append_left _).trans before
  cases step with
  | rest | arrive | abandon | enqueue | take | ignore =>
      exact quiet rfl rfl (List.Sublist.refl _)
  | expand v m ds next idle =>
      have home := (located.opened v m (by simp [next])).1
      have once : (chosen A D (ds.map (Prod.mk m))).Sublist ([m].filter A) :=
        chosen_expansion (single m ds (by simp))
      by_cases wanted : A m = true
      · obtain rfl : v = w := home.trans (shards m wanted)
        have longer := before.append once
        simpa [leaving, expansions, deliveries, idle] using longer
      · have nothing : chosen A D (ds.map (Prod.mk m)) = [] := by
          simpa [wanted] using once
        have same : chosen A D (Function.update s.todo v (ds.map (Prod.mk m)) w) =
            chosen A D (s.todo w) :=
          chosen_update fun _ => by rw [nothing, idle]; rfl
        simpa [leaving, expansions, deliveries, same, wanted] using before
  | cancel v =>
      refine quiet rfl rfl ((((chosen_sublist ?_).append_left _).append_left _).append_left _)
      exact update_sublist (List.nil_sublist _)
  | send v m d left next =>
      refine quiet rfl rfl (List.Sublist.append_left (List.Sublist.append_left ?_ _) _)
      have home := (located.todo v (m, d) (by simp [next])).1
      cases wanted : A m && D d with
      | true =>
          obtain rfl : v = w := home.trans (shards m (Bool.and_eq_true_iff.mp wanted).1)
          simp [next, chosen_cons]
      | false =>
          rw [chosen_update fun _ => by simp [next, chosen_cons, wanted]]
          simp [chosen_cons, wanted]
  | pick m d left front idle =>
      refine quiet rfl rfl ?_
      simp only [leaving, front, idle, chosen_cons A D _ left, chosen_cons A D _ [],
        List.append_assoc]
      exact List.Sublist.refl _
  | lose =>
      refine quiet rfl rfl (List.Sublist.append_left (List.Sublist.append_right ?_ _) _)
      exact chosen_sublist (List.nil_sublist _)
  | post m d left held =>
      refine quiet rfl rfl ?_
      cases wanted : A m && D d with
      | true =>
          obtain rfl := lanes d (Bool.and_eq_true_iff.mp wanted).2
          simp [leaving, held, chosen_cons]
      | false =>
          simp only [leaving]
          rw [chosen_update fun _ => by simp [chosen_cons, wanted]]
          simp [held, chosen_cons, wanted]
  | deliver k m d left front =>
      by_cases here : l = k
      · subst here
        have moved : deliveries l [(.delivered l m d : Signal μ δ)] = [(m, d)] := by
          simp [deliveries]
        rw [deliveries_append, moved, expansions_append]
        simpa [leaving, expansions, front, chosen_cons] using before
      · have other : k ≠ l := Ne.symm here
        simpa [leaving, expansions, deliveries, other, Function.update_of_ne here] using before

theorem Flow.leaving (flow : Flow shard lane log s) (shards : ∀ m, A m = true → shard m = w)
    (lanes : ∀ d, D d = true → lane d = l)
    (single : ∀ m ds, .expanded m ds ∈ log → A m = true → (ds.filter D).length ≤ 1) :
    (chosen A D (deliveries l log) ++ Pipeline.leaving A D w l s).Sublist
      ((expansions log).filter A) := by
  induction flow with
  | empty => exact List.Sublist.refl _
  | snoc earlier step ih =>
      refine leaving_step earlier.located step shards lanes single (ih ?_)
      exact fun m ds member => single m ds (List.mem_append_left _ member)

theorem mem_deliveries {x : μ × δ} (member : x ∈ deliveries l log) :
    .delivered l x.1 x.2 ∈ log := by
  obtain ⟨signal, seen, shape⟩ := List.mem_filterMap.mp member
  cases signal with
  | delivered k m d =>
      dsimp only at shape
      split at shape
      · rename_i here
        subst here
        cases shape
        exact seen
      · cases shape
  | _ => cases shape

theorem Flow.ordered (flow : Flow shard lane log s) (shards : ∀ m, A m = true → shard m = w)
    (home : ∀ j m, .arrived j m ∈ log → A m = true → j = i)
    (single : ∀ m ds, .expanded m ds ∈ log → A m = true → (ds.filter D).length ≤ 1) :
    (chosen A D (deliveries l log)).Sublist ((arrivals log).filter A) := by
  have inLane : chosen A D (deliveries l log) =
      chosen A (fun d => D d && lane d == l) (deliveries l log) := by
    refine congrArg (List.map Prod.fst) (List.filter_congr fun x delivered => ?_)
    dsimp only
    rw [beq_iff_eq.mpr (flow.backs.delivered (mem_deliveries delivered)).1.symm, Bool.and_true]
  have leaving := flow.leaving (D := fun d => D d && lane d == l) (l := l) shards
    (fun d both => beq_iff_eq.mp (Bool.and_eq_true_iff.mp both).2)
    (fun m ds expanded selected => Nat.le_trans
      (List.monotone_filter_right ds fun d both => (Bool.and_eq_true_iff.mp both).1).length_le
      (single m ds expanded selected))
  rw [inLane]
  exact ((List.sublist_append_left _ _).trans leaving).trans
    ((List.sublist_append_left _ _).trans (flow.entering shards home))

end Order

section Once

variable {shard : μ → Nat} {lane : δ → Nat} {log : List (Signal μ δ)} {s : Pipe μ δ}

def allDeliveries : List (Signal μ δ) → List (μ × δ) :=
  List.filterMap fun | .delivered _ m d => some (m, d) | _ => none

theorem eq_of_selected {α β : Type} {f : α → Option β} {P : β → Bool} {xs : List α}
    (few : ((xs.filterMap f).filter P).length ≤ 1) {x y : α} {a b : β} (left : x ∈ xs)
    (right : y ∈ xs) (first : f x = some a) (second : f y = some b) (wanted : P a = true)
    (chosen : P b = true) : x = y := by
  -- an entry apart from `z` adds a second selected item
  have alone : ∀ {z w c e rest}, (((z :: rest).filterMap f).filter P).length ≤ 1 → f z = some c →
      P c = true → w ∈ rest → f w = some e → P e = true → False := by
    intro z w c e rest few head selected inside shown other
    have member : e ∈ (rest.filterMap f).filter P :=
      List.mem_filter.mpr ⟨List.mem_filterMap.mpr ⟨w, inside, shown⟩, other⟩
    rw [List.filterMap_cons_some head, List.filter_cons_of_pos selected, List.length_cons] at few
    have none := List.eq_nil_of_length_eq_zero (Nat.le_zero.mp (Nat.le_of_succ_le_succ few))
    rw [none] at member
    cases member
  induction xs with
  | nil => cases left
  | cons z rest ih =>
      have fewer : ((rest.filterMap f).filter P).length ≤ 1 :=
        Nat.le_trans (((List.sublist_cons_self z rest).filterMap f).filter P).length_le few
      rcases List.mem_cons.mp left with here | inside
      · rcases List.mem_cons.mp right with there | beyond
        · rw [here, there]
        · subst here
          exact (alone few first wanted beyond second chosen).elim
      · rcases List.mem_cons.mp right with there | beyond
        · subst there
          exact (alone few second chosen inside first wanted).elim
        · exact ih fewer inside beyond

theorem deliveries_of_lane {P : μ × δ → Bool} {l : Nat}
    (same : ∀ k x d, .delivered k x d ∈ log → P (x, d) = true → k = l) :
    (allDeliveries log).filter P = (deliveries l log).filter P := by
  rw [allDeliveries, deliveries, List.filter_filterMap, List.filter_filterMap]
  refine List.filterMap_congr fun signal seen => ?_
  cases signal with
  | delivered k x d =>
      dsimp only
      split
      · rfl
      · rename_i other
        rw [Option.filter_some, if_neg]
        · rfl
        · exact fun wanted => other (same k x d seen wanted)
  | _ => rfl

theorem mem_allDeliveries {x : μ × δ} (member : x ∈ allDeliveries log) :
    ∃ l, .delivered l x.1 x.2 ∈ log := by
  obtain ⟨signal, seen, shape⟩ := List.mem_filterMap.mp member
  cases signal with
  | delivered k m d =>
      cases shape
      exact ⟨k, seen⟩
  | _ => cases shape

variable [DecidableEq μ] {i : Nat} {m : μ}

theorem Flow.expanded_once (flow : Flow shard lane log s) (home : ∀ j, .arrived j m ∈ log → j = i)
    (once : (arrivals log).count m ≤ 1) {ds es : List δ} (first : .expanded m ds ∈ log)
    (second : .expanded m es ∈ log) : ds = es := by
  have order := (List.sublist_append_left _ _).trans
    (flow.entering (A := (· == m)) (w := shard m) (i := i)
      (fun x same => by rw [beq_iff_eq.mp same])
      (fun j x arrived same => home j (by rw [← beq_iff_eq.mp same]; exact arrived)))
  have few : ((expansions log).filter (· == m)).length ≤ 1 :=
    Nat.le_trans order.length_le (by rwa [← List.count_eq_length_filter])
  have same := eq_of_selected few first second rfl rfl (beq_self_eq_true m) (beq_self_eq_true m)
  exact (Signal.expanded.inj same).2

section Message

variable (flow : Flow shard lane log s) (home : ∀ j, .arrived j m ∈ log → j = i)
  (once : (arrivals log).count m ≤ 1) {D : δ → Bool}
  (single : ∀ ds, .expanded m ds ∈ log → (ds.filter D).length ≤ 1)
include flow home once single

theorem Flow.one_destination {k l : Nat} {d e : δ} (first : .delivered k m d ∈ log)
    (second : .delivered l m e ∈ log) (wanted : D d = true) (counts : D e = true) :
    k = l ∧ d = e := by
  obtain ⟨rfl, ds, expanded, named⟩ := flow.backs.delivered first
  obtain ⟨rfl, es, again, inside⟩ := flow.backs.delivered second
  obtain rfl := flow.expanded_once home once again expanded
  have few : ((es.filterMap some).filter D).length ≤ 1 := by
    rw [List.filterMap_some]
    exact single es again
  obtain rfl := eq_of_selected few named inside rfl rfl wanted counts
  exact ⟨rfl, rfl⟩

theorem Flow.delivered_once :
    ((allDeliveries log).filter fun x => x.1 == m && D x.2).length ≤ 1 := by
  cases shown : (allDeliveries log).filter fun x => x.1 == m && D x.2 with
  | nil => exact Nat.zero_le 1
  | cons x rest =>
      have member : x ∈ (allDeliveries log).filter fun x => x.1 == m && D x.2 := by
        rw [shown]
        exact List.mem_cons_self
      obtain ⟨inside, wanted⟩ := List.mem_filter.mp member
      obtain ⟨l, seen⟩ := mem_allDeliveries inside
      simp only [Bool.and_eq_true, beq_iff_eq] at wanted
      rw [wanted.1] at seen
      have oneLane : (allDeliveries log).filter (fun x => x.1 == m && D x.2) =
          (deliveries l log).filter fun x => x.1 == m && D x.2 := by
        refine deliveries_of_lane fun k y d delivered counts => ?_
        simp only [Bool.and_eq_true, beq_iff_eq] at counts
        rw [counts.1] at delivered
        exact (flow.one_destination home once single delivered seen counts.2 wanted.2).1
      have order := flow.ordered (A := (· == m)) (D := D) (w := shard m) (i := i) (l := l)
        (fun y same => by rw [beq_iff_eq.mp same])
        (fun j y arrived same => home j (by rw [← beq_iff_eq.mp same]; exact arrived))
        (fun y ds expanded same => single ds (by rw [← beq_iff_eq.mp same]; exact expanded))
      have few := order.length_le
      rw [chosen, List.length_map, ← List.count_eq_length_filter] at few
      rw [← shown, oneLane]
      exact Nat.le_trans few once

end Message

end Once

end HiImCore.Pipeline
