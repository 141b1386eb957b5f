import Mathlib.Data.List.Basic

/-!
# Checks made in order

A validator that makes its checks one after the other and reports the first that fails, as a list of
checks, each with the error that it reports.
-/

namespace NnsVerified.Library

variable {E : Type}

/-- The error of the first check that fails. -/
def firstFailing (checks : List (Bool × E)) : Option E := (checks.find? fun c => !c.1).map Prod.snd

@[simp] theorem firstFailing_nil : firstFailing ([] : List (Bool × E)) = none := rfl

theorem firstFailing_cons (c : Bool × E) (checks : List (Bool × E)) :
    firstFailing (c :: checks) = if !c.1 then some c.2 else firstFailing checks := by
  unfold firstFailing
  cases h : c.1 <;> simp [h]

theorem firstFailing_eq_none {checks : List (Bool × E)} :
    firstFailing checks = none ↔ ∀ c ∈ checks, c.1 = true := by
  simp [firstFailing]

/-- The error reported is that of a failing check. -/
theorem exists_of_firstFailing {checks : List (Bool × E)} {e : E}
    (h : firstFailing checks = some e) : (false, e) ∈ checks := by
  obtain ⟨⟨b, e'⟩, hfind, rfl⟩ := Option.map_eq_some_iff.mp h
  have hb : b = false := by simpa using List.find?_some hfind
  exact hb ▸ List.mem_of_find?_eq_some hfind

theorem mem_map_of_firstFailing {checks : List (Bool × E)} {e : E}
    (h : firstFailing checks = some e) : e ∈ checks.map Prod.snd :=
  List.mem_map.mpr ⟨_, exists_of_firstFailing h, rfl⟩

/-- Fewer checks report the same error, as long as the check that failed first is one of them. -/
theorem firstFailing_of_sublist {few all : List (Bool × E)} (hsub : few.Sublist all)
    (hnodup : (all.map Prod.snd).Nodup) {e : E} (h : firstFailing all = some e)
    (hmem : e ∈ few.map Prod.snd) : firstFailing few = some e := by
  induction hsub with
  | slnil => exact h
  | @cons few all c hsub ih =>
    rw [List.map_cons, List.nodup_cons] at hnodup
    rw [firstFailing_cons] at h
    cases hc : c.1 with
    | true =>
      simp only [hc, Bool.not_true, Bool.false_eq_true, if_false] at h
      exact ih hnodup.2 h hmem
    | false =>
      -- the check left out is not the one that failed
      simp only [hc, Bool.not_false, if_true, Option.some.injEq] at h
      exact absurd ((hsub.map Prod.snd).subset hmem) (h ▸ hnodup.1)
  | @cons_cons few all c hsub ih =>
    rw [List.map_cons, List.nodup_cons] at hnodup
    rw [firstFailing_cons] at h ⊢
    cases hc : c.1 with
    | true =>
      simp only [hc, Bool.not_true, Bool.false_eq_true, if_false] at h ⊢
      refine ih hnodup.2 h ?_
      rcases List.mem_cons.mp hmem with rfl | hmem
      · exact absurd (mem_map_of_firstFailing h) hnodup.1
      · exact hmem
    | false =>
      simp only [hc, Bool.not_false, if_true] at h ⊢
      exact h

end NnsVerified.Library
