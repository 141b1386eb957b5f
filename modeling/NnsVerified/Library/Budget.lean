import Mathlib.Logic.Basic

/-!
# Computations within a budget

A recursion that nothing bounds is modelled by a function of a budget: it fails where the budget does
not suffice, and a larger budget keeps its results (`Steady`). Such a computation gives a result
(`Gives`) when some budget suffices for it.
-/

namespace NnsVerified.Library

variable {ε α β : Type} {x : Nat → Except ε α} {k : Nat → α → Except ε β}

/-- A larger budget keeps every result. -/
def Steady (x : Nat → Except ε α) : Prop := ∀ n m r, n ≤ m → x n = .ok r → x m = .ok r

/-- Some budget suffices for the result. -/
def Gives (x : Nat → Except ε α) (r : α) : Prop := ∃ n, x n = .ok r

theorem steady_of_succ (h : ∀ n r, x n = .ok r → x (n + 1) = .ok r) : Steady x := by
  intro n m r hle hn
  induction hle with
  | refl => exact hn
  | step _ ih => exact h _ r ih

theorem steady_const (y : Except ε α) : Steady fun _ => y := fun _ _ _ _ h => h

theorem Steady.bind (hx : Steady x) (hk : ∀ s, Steady fun n => k n s) :
    Steady fun n => x n >>= k n := by
  intro n m r hle h
  dsimp only at h ⊢
  cases hs : x n with
  | error e =>
    rw [hs] at h
    cases h
  | ok s =>
    rw [hs] at h
    rw [hx n m s hle hs]
    exact hk s n m r hle h

@[simp] theorem gives_const_iff {y : Except ε α} {r : α} : Gives (fun _ => y) r ↔ y = .ok r := by
  simp [Gives]

/-- One unit of a budget does not matter. -/
theorem gives_succ_iff (hx : Steady x) {r : α} : Gives (fun n => x (n + 1)) r ↔ Gives x r := by
  constructor
  · rintro ⟨n, hn⟩
    exact ⟨n + 1, hn⟩
  · rintro ⟨n, hn⟩
    exact ⟨n, hx n (n + 1) r (Nat.le_succ n) hn⟩

/-- Two steps in a row need a budget that suffices for both. -/
theorem gives_bind_iff (hx : Steady x) (hk : ∀ s, Steady fun n => k n s) {r : β} :
    Gives (fun n => x n >>= k n) r ↔ ∃ s, Gives x s ∧ Gives (fun n => k n s) r := by
  constructor
  · rintro ⟨n, hn⟩
    dsimp only at hn
    cases hs : x n with
    | error e =>
      rw [hs] at hn
      cases hn
    | ok s =>
      rw [hs] at hn
      exact ⟨s, ⟨n, hs⟩, n, hn⟩
  · rintro ⟨s, ⟨n, hn⟩, m, hm⟩
    refine ⟨max n m, ?_⟩
    show x (max n m) >>= k (max n m) = .ok r
    rw [hx n _ s (Nat.le_max_left n m) hn]
    exact hk s m _ r (Nat.le_max_right n m) hm

/-- The last step needs no budget. -/
theorem gives_map_iff (hx : Steady x) {k : α → Except ε β} {r : β} :
    Gives (fun n => x n >>= k) r ↔ ∃ s, Gives x s ∧ k s = .ok r := by
  rw [gives_bind_iff hx fun s => steady_const (k s)]
  simp only [gives_const_iff]

section

variable {γ : Type} {y : Nat → Except ε β}

/-- Two computations, and a step that goes on from both. -/
theorem gives_bind_bind_iff (hx : Steady x) (hy : Steady y) {k : Nat → α → β → Except ε γ}
    (hk : ∀ s t, Steady fun n => k n s t) {r : γ} :
    Gives (fun n => x n >>= fun s => y n >>= k n s) r ↔
      ∃ s t, Gives x s ∧ Gives y t ∧ Gives (fun n => k n s t) r := by
  rw [gives_bind_iff hx fun s => hy.bind (hk s)]
  refine exists_congr fun s => ?_
  rw [gives_bind_iff hy (hk s), ← exists_and_left]

theorem gives_bind_map_iff (hx : Steady x) (hy : Steady y) {k : α → β → Except ε γ} {r : γ} :
    Gives (fun n => x n >>= fun s => y n >>= k s) r ↔
      ∃ s t, Gives x s ∧ Gives y t ∧ k s t = .ok r := by
  rw [gives_bind_bind_iff hx hy fun s t => steady_const (k s t)]
  simp only [gives_const_iff]

end

end NnsVerified.Library
