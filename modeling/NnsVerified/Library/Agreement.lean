import Mathlib.Logic.Function.Basic
import Mathlib.Data.List.Basic
import Mathlib.Tactic.Push

/-!
# Comparisons of variables

A check that compares variables in pairs (`AllAgree`), and what happens to its verdict when one
variable gets another value. The verdict stays the same exactly when the value does, or another
comparison fails anyway, or the variable is not compared, or it is compared with some variable that
differs from the old value and with some that differs from the new one.
-/

namespace NnsVerified.Library

variable {ι β : Type}

/-- Every pair of a list of pairs of variables has equal values. -/
def AllAgree (v : ι → β) (pairs : List (ι × ι)) : Prop := ∀ c ∈ pairs, v c.1 = v c.2

/-- Two variables are compared. -/
def Compared (pairs : List (ι × ι)) (i j : ι) : Prop := (i, j) ∈ pairs ∨ (j, i) ∈ pairs

/-- Some comparison without the variable fails. -/
def FailsWithout (v : ι → β) (pairs : List (ι × ι)) (i : ι) : Prop :=
  ∃ c ∈ pairs, c.1 ≠ i ∧ c.2 ≠ i ∧ v c.1 ≠ v c.2

/-- All pairs agree where those without a variable do and what it is compared with has its value. -/
theorem allAgree_iff {v : ι → β} {pairs : List (ι × ι)} {i : ι} :
    AllAgree v pairs ↔ ¬FailsWithout v pairs i ∧ ∀ j, Compared pairs i j → v j = v i := by
  constructor
  · intro h
    refine ⟨fun ⟨c, hc, _, _, hne⟩ => hne (h c hc), fun j hj => ?_⟩
    rcases hj with hj | hj
    · exact (h _ hj).symm
    · exact h _ hj
  · rintro ⟨hothers, hi⟩ ⟨a, b⟩ hc
    by_cases ha : a = i
    · exact ha ▸ (hi b (Or.inl (ha ▸ hc))).symm
    · by_cases hb : b = i
      · exact hb ▸ hi a (Or.inr (hb ▸ hc))
      · by_contra hne
        exact hothers ⟨(a, b), hc, ha, hb, hne⟩

variable [DecidableEq ι]

theorem failsWithout_update {v : ι → β} {pairs : List (ι × ι)} {i : ι} {b : β} :
    FailsWithout (Function.update v i b) pairs i ↔ FailsWithout v pairs i := by
  refine exists_congr fun c => and_congr_right fun _ => and_congr_right fun h₁ =>
    and_congr_right fun h₂ => ?_
  rw [Function.update_of_ne h₁, Function.update_of_ne h₂]

/-- When another value for one variable leaves the verdict as it is. -/
theorem allAgree_update_iff {v : ι → β} {pairs : List (ι × ι)} (hself : ∀ c ∈ pairs, c.1 ≠ c.2)
    (i : ι) (b : β) :
    (AllAgree (Function.update v i b) pairs ↔ AllAgree v pairs) ↔
      b = v i ∨ FailsWithout v pairs i ∨ (∀ j, ¬Compared pairs i j) ∨
        (∃ j, Compared pairs i j ∧ v j ≠ v i) ∧ ∃ j, Compared pairs i j ∧ v j ≠ b := by
  have hne : ∀ j, Compared pairs i j → j ≠ i := by
    rintro j (hj | hj) rfl
    · exact hself _ hj rfl
    · exact hself _ hj rfl
  have hnew : AllAgree (Function.update v i b) pairs ↔
      ¬FailsWithout v pairs i ∧ ∀ j, Compared pairs i j → v j = b := by
    rw [allAgree_iff (i := i), failsWithout_update, Function.update_self]
    refine and_congr_right fun _ => forall_congr' fun j => forall_congr' fun hj => ?_
    rw [Function.update_of_ne (hne j hj)]
  rw [hnew, allAgree_iff (i := i)]
  constructor
  · intro h
    by_contra hcon
    push Not at hcon
    obtain ⟨hb, hothers, ⟨j, hj⟩, hboth⟩ := hcon
    by_cases hold : ∃ k, Compared pairs i k ∧ v k ≠ v i
    · -- the new verdict holds and the old one does not
      obtain ⟨k, hk, hkv⟩ := hold
      exact hkv ((h.mp ⟨hothers, hboth ⟨k, hk, hkv⟩⟩).2 k hk)
    · push Not at hold
      have hjb := (h.mpr ⟨hothers, hold⟩).2 j hj
      exact hb (hjb.symm.trans (hold j hj))
  · rintro (rfl | hfails | hfree | ⟨⟨j, hj, hjv⟩, k, hk, hkb⟩)
    · exact Iff.rfl
    · exact iff_of_false (fun h => h.1 hfails) fun h => h.1 hfails
    · exact and_congr_right fun _ =>
        iff_of_true (fun j hj => absurd hj (hfree j)) fun j hj => absurd hj (hfree j)
    · exact iff_of_false (fun h => hkb (h.2 k hk)) fun h => hjv (h.2 j hj)

end NnsVerified.Library
