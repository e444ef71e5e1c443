import Mathlib.Algebra.BigOperators.Group.Finset.Basic
import Mathlib.Order.WellFounded

/-! Ranks of several levels. A step may raise the levels below the one that it lowers; there is no
infinite sequence of such steps. -/

namespace HiImCore.Ranking

def Falls : List Nat → List Nat → Prop
  | a :: later, b :: rest => a < b ∨ a ≤ b ∧ Falls later rest
  | _, _ => False

theorem acc_falls (n : Nat) (rank : List Nat) (size : rank.length = n) :
    Acc (fun a b => a.length = b.length ∧ Falls a b) rank := by
  induction n generalizing rank with
  | zero =>
      obtain rfl := List.length_eq_zero_iff.mp size
      refine ⟨_, fun a below => ?_⟩
      cases a <;> exact below.2.elim
  | succ n ih =>
      cases rank with
      | nil => cases size
      | cons b rest =>
          rw [List.length_cons, Nat.add_right_cancel_iff] at size
          induction b using Nat.strongRecOn generalizing rest with
          | ind b smaller =>
              -- for the same head, the tails fall
              induction ih rest size with
              | intro rest _ tails =>
                  refine ⟨_, fun a below => ?_⟩
                  cases a with
                  | nil => cases below.1
                  | cons a later =>
                      obtain ⟨same, falls⟩ := below
                      rw [List.length_cons, List.length_cons, Nat.add_right_cancel_iff] at same
                      have long := same.trans size
                      rcases falls with head | ⟨head, tail⟩
                      · exact smaller a head later long
                      · rcases Nat.lt_or_eq_of_le head with less | rfl
                        · exact smaller a less later long
                        · exact tails later ⟨same, tail⟩ long

theorem wellFounded_of_falls {σ : Type} {R : σ → σ → Prop} {n : Nat} (rank : σ → List Nat)
    (size : ∀ s, (rank s).length = n) (falls : ∀ post pre, R post pre → Falls (rank post) (rank pre)) :
    WellFounded R := by
  have ranks : WellFounded fun a b : List Nat => a.length = b.length ∧ Falls a b :=
    ⟨fun a => acc_falls a.length a rfl⟩
  refine Subrelation.wf ?_ (InvImage.wf rank ranks)
  intro post pre step
  exact ⟨(size post).trans (size pre).symm, falls post pre step⟩

theorem Falls.add {a b c : List Nat} (falls : Falls a b) (long : b.length ≤ c.length) :
    Falls (List.zipWith (· + ·) a c) (List.zipWith (· + ·) b c) := by
  induction a generalizing b c with
  | nil => exact falls.elim
  | cons x later ih =>
      cases b with
      | nil => exact falls.elim
      | cons y rest =>
          cases c with
          | nil => simp at long
          | cons z more =>
              rcases falls with less | ⟨head, tail⟩
              · exact .inl (Nat.add_lt_add_right less z)
              · exact .inr ⟨Nat.add_le_add_right head z, ih tail (Nat.le_of_succ_le_succ long)⟩

theorem sum_changed {n i : Nat} (inside : i < n) {f g : Nat → Nat} (others : ∀ j, j ≠ i → g j = f j) :
    ∑ j ∈ Finset.range n, g j + f i = ∑ j ∈ Finset.range n, f j + g i := by
  have member := Finset.mem_range.mpr inside
  have rest : ∑ j ∈ (Finset.range n).erase i, g j = ∑ j ∈ (Finset.range n).erase i, f j :=
    Finset.sum_congr rfl fun j there => others j (Finset.ne_of_mem_erase there)
  rw [← Finset.add_sum_erase _ g member, ← Finset.add_sum_erase _ f member, rest]
  omega

end HiImCore.Ranking
