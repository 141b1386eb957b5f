import Mathlib.Data.List.Sort

/-!
# The sort of the Hoon standard library

`+sort` is a quicksort with the head of the list as its pivot. Sorting by a strict order on a key
that distinct items do not share gives the same list for every order of the items.
-/

namespace NnsVerified.Hoon

variable {α : Type}

/-- `+sort`, which puts the items that come before the first one ahead of it. -/
def sort (b : α → α → Bool) : List α → List α
  | [] => []
  | i :: t => sort b (t.filter fun c => b c i) ++ i :: sort b (t.filter fun c => !b c i)
termination_by l => l.length
decreasing_by
  all_goals
    simp only [List.unattach_filter, List.unattach_attach, List.length_cons]
    exact Nat.lt_succ_of_le (List.length_filter_le _ _)

@[simp] theorem sort_nil (b : α → α → Bool) : sort b [] = [] := by
  rw [sort]

theorem sort_cons (b : α → α → Bool) (i : α) (t : List α) :
    sort b (i :: t) = sort b (t.filter fun c => b c i) ++ i :: sort b (t.filter fun c => !b c i) := by
  rw [sort]

theorem sort_perm (b : α → α → Bool) (l : List α) : (sort b l).Perm l := by
  induction l using sort.induct b with
  | case1 => simp
  | case2 i t ih1 ih2 =>
    simp only [List.unattach_filter, List.unattach_attach] at ih1 ih2
    rw [sort_cons]
    calc sort b (t.filter fun c => b c i) ++ i :: sort b (t.filter fun c => !b c i)
      _ |>.Perm (i :: (sort b (t.filter fun c => b c i) ++ sort b (t.filter fun c => !b c i))) :=
        List.perm_middle
      _ |>.Perm (i :: (t.filter (fun c => b c i) ++ t.filter fun c => !b c i)) :=
        (ih1.append ih2).cons i
      _ |>.Perm (i :: t) := (List.filter_append_perm _ t).cons i

section Key

variable (key : α → Nat)

/-- Sorting by a key puts the items in the order of their keys. -/
theorem sort_pairwise (l : List α) :
    (sort (fun x y => decide (key x < key y)) l).Pairwise fun x y => key x ≤ key y := by
  set b : α → α → Bool := fun x y => decide (key x < key y) with hb
  induction l using sort.induct b with
  | case1 => simp
  | case2 i t ih1 ih2 =>
    simp only [List.unattach_filter, List.unattach_attach] at ih1 ih2
    have hlow : ∀ x ∈ sort b (t.filter fun c => b c i), key x < key i := by
      intro x hx
      simpa [hb] using List.of_mem_filter ((sort_perm b _).mem_iff.mp hx)
    have hhigh : ∀ x ∈ sort b (t.filter fun c => !b c i), key i ≤ key x := by
      intro x hx
      simpa [hb] using List.of_mem_filter ((sort_perm b _).mem_iff.mp hx)
    rw [sort_cons, List.pairwise_append, List.pairwise_cons]
    refine ⟨ih1, ⟨hhigh, ih2⟩, fun x hx y hy => ?_⟩
    rcases List.mem_cons.mp hy with rfl | hy
    · exact le_of_lt (hlow x hx)
    · exact le_of_lt (lt_of_lt_of_le (hlow x hx) (hhigh y hy))

/-- The sorted list does not depend on the order of the items, when their keys are distinct. -/
theorem sort_canonical {l l' : List α} (hp : l.Perm l') (hnd : (l.map key).Nodup) :
    sort (fun x y => decide (key x < key y)) l = sort (fun x y => decide (key x < key y)) l' := by
  refine @List.Perm.eq_of_pairwise _ (fun x y => key x ≤ key y) _ _ ?_ (sort_pairwise key l)
    (sort_pairwise key l') (((sort_perm _ l).trans hp).trans (sort_perm _ l').symm)
  intro x y hx hy hxy hyx
  have hx' := (sort_perm _ l).mem_iff.mp hx
  have hy' := hp.mem_iff.mpr ((sort_perm _ l').mem_iff.mp hy)
  exact List.inj_on_of_nodup_map hnd hx' hy' (le_antisymm hxy hyx)

end Key

end NnsVerified.Hoon
