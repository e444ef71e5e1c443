import Mathlib.Data.List.Nodup
import Mathlib.Logic.Function.Basic

/-! Loops over distinct indices, each step reading and writing the value at its own index. -/

namespace HiImCore.ForEach

variable {ι β : Type} [DecidableEq ι]

def forEach (step : ι → β → Option β) (indices : List ι) (values : ι → β) : Option (ι → β) :=
  indices.foldlM (fun values i => (step i (values i)).map (Function.update values i)) values

def forEachPure (step : ι → β → β) (indices : List ι) (values : ι → β) : ι → β :=
  indices.foldl (fun values i => Function.update values i (step i (values i))) values

variable {step : ι → β → Option β} {indices : List ι} {values final : ι → β} {i : ι}

@[simp] theorem forEach_nil : forEach step [] values = some values := rfl

theorem forEach_cons_some {value : β} (first : step i (values i) = some value) :
    forEach step (i :: indices) values = forEach step indices (Function.update values i value) := by
  rw [forEach, List.foldlM_cons, first]
  rfl

theorem forEach_cons_none (first : step i (values i) = none) :
    forEach step (i :: indices) values = none := by
  rw [forEach, List.foldlM_cons, first]
  rfl

theorem forEach_isSome (distinct : indices.Nodup) :
    (forEach step indices values).isSome ↔ ∀ i ∈ indices, (step i (values i)).isSome := by
  induction indices generalizing values with
  | nil => simp
  | cons i rest ih =>
      have fresh := (List.nodup_cons.mp distinct).1
      rw [List.forall_mem_cons]
      cases first : step i (values i) with
      | none => simp [forEach_cons_none first]
      | some value =>
          rw [forEach_cons_some first, ih (List.nodup_cons.mp distinct).2]
          simp only [Option.isSome_some, true_and]
          refine forall₂_congr fun j member => ?_
          rw [Function.update_of_ne (ne_of_mem_of_not_mem member fresh)]

theorem forEach_of_notMem (ran : forEach step indices values = some final) (other : i ∉ indices) :
    final i = values i := by
  induction indices generalizing values with
  | nil => rw [Option.some.inj ran]
  | cons j rest ih =>
      have apart := List.ne_of_not_mem_cons other
      cases first : step j (values j) with
      | none => simp [forEach_cons_none first] at ran
      | some value =>
          rw [forEach_cons_some first] at ran
          rw [ih ran (List.not_mem_of_not_mem_cons other), Function.update_of_ne apart]

theorem forEach_of_mem (distinct : indices.Nodup) (ran : forEach step indices values = some final)
    (member : i ∈ indices) : step i (values i) = some (final i) := by
  induction indices generalizing values with
  | nil => exact absurd member List.not_mem_nil
  | cons j rest ih =>
      have fresh := (List.nodup_cons.mp distinct).1
      cases first : step j (values j) with
      | none => simp [forEach_cons_none first] at ran
      | some value =>
          rw [forEach_cons_some first] at ran
          rcases List.mem_cons.mp member with here | later
          · subst here
            rw [first, forEach_of_notMem ran fresh, Function.update_self]
          · have stepped := ih (List.nodup_cons.mp distinct).2 ran later
            rwa [Function.update_of_ne (ne_of_mem_of_not_mem later fresh)] at stepped

section Pure

variable {step : ι → β → β}

theorem forEachPure_cons :
    forEachPure step (i :: indices) values =
      forEachPure step indices (Function.update values i (step i (values i))) := rfl

theorem forEachPure_of_notMem (other : i ∉ indices) :
    forEachPure step indices values i = values i := by
  induction indices generalizing values with
  | nil => rfl
  | cons j rest ih =>
      rw [forEachPure_cons, ih (List.not_mem_of_not_mem_cons other),
        Function.update_of_ne (List.ne_of_not_mem_cons other)]

theorem forEachPure_of_mem (again : ∀ value, step i (step i value) = step i value)
    (member : i ∈ indices) : forEachPure step indices values i = step i (values i) := by
  induction indices generalizing values with
  | nil => exact absurd member List.not_mem_nil
  | cons j rest ih =>
      rw [forEachPure_cons]
      by_cases later : i ∈ rest
      · rw [ih later]
        by_cases here : i = j
        · rw [here, Function.update_self, ← here, again]
        · rw [Function.update_of_ne here]
      · have here : i = j := (List.mem_cons.mp member).resolve_right later
        rw [forEachPure_of_notMem later, here, Function.update_self]

end Pure

end HiImCore.ForEach
