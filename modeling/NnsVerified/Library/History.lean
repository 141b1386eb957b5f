import Mathlib.Data.List.Induction

/-!
# Runs and their history

A machine takes one input at a time; a step yields the next state and at most one event. A run of
it ends in a state (`final`) and leaves the list of its events (`history`). An invariant of runs
relates the two: what holds of the empty history and the initial state, and is kept by every step,
holds of the history and the final state of every run. A property of steps holds along a run when it
holds of every step that the run takes; what only such steps write is what the last of them wrote.
-/

namespace NnsVerified.Library

variable {σ ι β : Type}

/-- The state that a run ends in. -/
def final (step : σ → ι → σ × Option β) (s : σ) (inputs : List ι) : σ :=
  inputs.foldl (fun t i => (step t i).1) s

/-- The events of a run, in order. -/
def history (step : σ → ι → σ × Option β) : σ → List ι → List β
  | _, [] => []
  | s, i :: inputs => (step s i).2.toList ++ history step (step s i).1 inputs

section

variable (step : σ → ι → σ × Option β)

@[simp] theorem final_nil (s : σ) : final step s [] = s := rfl

@[simp] theorem final_cons (s : σ) (i : ι) (inputs : List ι) :
    final step s (i :: inputs) = final step (step s i).1 inputs := rfl

@[simp] theorem history_nil (s : σ) : history step s [] = [] := rfl

@[simp] theorem history_cons (s : σ) (i : ι) (inputs : List ι) :
    history step s (i :: inputs) = (step s i).2.toList ++ history step (step s i).1 inputs := rfl

theorem final_append (s : σ) (xs ys : List ι) :
    final step s (xs ++ ys) = final step (final step s xs) ys :=
  List.foldl_append

theorem history_append (s : σ) (xs ys : List ι) :
    history step s (xs ++ ys) = history step s xs ++ history step (final step s xs) ys := by
  induction xs generalizing s with
  | nil => rfl
  | cons i xs ih =>
    rw [List.cons_append, history_cons, history_cons, final_cons, ih, List.append_assoc]

end

/-- The rule for invariants that speak about the history of a run. -/
theorem history_invariant {step : σ → ι → σ × Option β} {I : List β → σ → Prop}
    (hstep : ∀ bs s i, I bs s → I (bs ++ (step s i).2.toList) (step s i).1) (s : σ)
    (inputs : List ι) (bs : List β) (h : I bs s) :
    I (bs ++ history step s inputs) (final step s inputs) := by
  induction inputs generalizing s bs with
  | nil => simpa using h
  | cons i inputs ih =>
    rw [history_cons, final_cons, ← List.append_assoc]
    exact ih _ _ (hstep bs s i h)

/-- The rule for invariants of the state alone. -/
theorem final_invariant {step : σ → ι → σ × Option β} {I : σ → Prop}
    (hstep : ∀ s i, I s → I (step s i).1) (s : σ) (inputs : List ι) (h : I s) :
    I (final step s inputs) :=
  history_invariant (I := fun _ t => I t) (fun _ s i => hstep s i) s inputs [] h

/-- An event of a run is that of one of its inputs. -/
theorem exists_of_mem_history {step : σ → ι → σ × Option β} {s : σ} {inputs : List ι} {b : β}
    (h : b ∈ history step s inputs) : ∃ t, ∃ i ∈ inputs, (step t i).2 = some b := by
  induction inputs generalizing s with
  | nil => cases h
  | cons i inputs ih =>
    rw [history_cons, List.mem_append, Option.mem_toList] at h
    rcases h with hi | hrest
    · exact ⟨s, i, List.mem_cons_self, hi⟩
    · obtain ⟨t, j, hj, hb⟩ := ih hrest
      exact ⟨t, j, List.mem_cons_of_mem _ hj, hb⟩

/-! ## Properties of the steps of a run -/

/-- Every step of a run, from the state that the run is in, has a property. -/
def Along (step : σ → ι → σ × Option β) (s : σ) (P : σ → ι → Prop) (inputs : List ι) : Prop :=
  ∀ pre i, pre ++ [i] <+: inputs → P (final step s pre) i

section

variable {step : σ → ι → σ × Option β} {s : σ} {P : σ → ι → Prop} {inputs rest : List ι} {i : ι}

theorem along_nil : Along step s P [] := by
  intro pre i h
  exact absurd (List.prefix_nil.mp h) (by simp)

theorem along_concat :
    Along step s P (inputs ++ [i]) ↔ Along step s P inputs ∧ P (final step s inputs) i := by
  constructor
  · intro h
    exact ⟨fun pre j hpre => h pre j (hpre.trans (List.prefix_append _ _)),
      h inputs i (List.prefix_refl _)⟩
  · rintro ⟨hinputs, hi⟩ pre j hpre
    rcases List.prefix_concat_iff.mp hpre with heq | hpre
    · obtain ⟨rfl, hlast⟩ := List.append_inj' heq rfl
      obtain rfl := List.singleton_inj.mp hlast
      exact hi
    · exact hinputs pre j hpre

theorem Along.of_append (h : Along step s P (inputs ++ rest)) : Along step s P inputs :=
  fun pre i hpre => h pre i (hpre.trans (List.prefix_append _ _))

end

/-! ## The last step with a property -/

/-- The last step of a run that has a property: the run before it, and its input. -/
structure LastStep (step : σ → ι → σ × Option β) (s : σ) (P : σ → ι → Prop)
    (inputs pre : List ι) (i : ι) : Prop where
  holds : P (final step s pre) i
  last : ∃ rest, inputs = pre ++ i :: rest ∧
    Along step (step (final step s pre) i).1 (fun t j => ¬P t j) rest

section

variable {γ : Type} {step : σ → ι → σ × Option β} {P : σ → ι → Prop}

/-- The rule for what only the steps with a property write. -/
theorem last_write {f : σ → γ} (hkeep : ∀ s i, ¬P s i → f (step s i).1 = f s) (s : σ)
    (inputs : List ι) :
    (Along step s (fun t j => ¬P t j) inputs ∧ f (final step s inputs) = f s) ∨
      ∃ pre i, LastStep step s P inputs pre i ∧
        f (final step s inputs) = f (step (final step s pre) i).1 := by
  induction inputs using List.reverseRecOn with
  | nil => exact Or.inl ⟨along_nil, rfl⟩
  | append_singleton inputs i ih =>
    rw [final_append, final_cons, final_nil]
    by_cases hi : P (final step s inputs) i
    · exact Or.inr ⟨inputs, i, ⟨hi, [], rfl, along_nil⟩, rfl⟩
    rw [hkeep _ _ hi]
    rcases ih with ⟨hnever, heq⟩ | ⟨pre, j, ⟨hj, rest, rfl, hrest⟩, heq⟩
    · exact Or.inl ⟨along_concat.mpr ⟨hnever, hi⟩, heq⟩
    · rw [final_append, final_cons] at hi
      refine Or.inr ⟨pre, j, ⟨hj, rest ++ [i], ?_, along_concat.mpr ⟨hrest, hi⟩⟩, heq⟩
      rw [List.append_assoc, List.cons_append]

end

end NnsVerified.Library
