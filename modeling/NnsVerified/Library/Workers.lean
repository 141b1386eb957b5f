import Mathlib.Data.List.Forall2
import Mathlib.Logic.Relation
import Mathlib.Order.GameAdd

/-!
# Tasks and pools

Asynchronous tasks as workers that make steps, and pools of tasks that need a permit to run. A task
settles when no run of it goes on for ever or gets stuck, and each ends with a result of a given
kind. A pool of tasks that settle settles too, whatever the order in which the tasks take the permits
and make their steps, as long as there is a permit at all; and its result is that of running the
tasks one after the other, up to the first that fails.
-/

namespace NnsVerified.Library

/-- A task that makes steps, among which it may have a choice, until it has a result. -/
structure Worker (S α : Type) where
  step : S → S → Prop
  result : S → Option α

variable {S α β E : Type}

/-! ## Settling -/

/-- Every run from a state comes to an end, and the results that it shows are in `Q`. -/
inductive Settles (M : Worker S α) (Q : α → Prop) : S → Prop where
  | intro {s : S} (next : ∀ t, M.step s t → Settles M Q t) (sound : ∀ a, M.result s = some a → Q a)
      (live : M.result s = none → ∃ t, M.step s t) : Settles M Q s

namespace Settles

variable {M : Worker S α} {Q Q' : α → Prop} {s t : S}

theorem next (h : Settles M Q s) (hst : M.step s t) : Settles M Q t := by
  cases h with
  | intro next _ _ => exact next t hst

theorem sound (h : Settles M Q s) {a : α} (ha : M.result s = some a) : Q a := by
  cases h with
  | intro _ sound _ => exact sound a ha

theorem live (h : Settles M Q s) (hs : M.result s = none) : ∃ t, M.step s t := by
  cases h with
  | intro _ _ live => exact live hs

theorem mono (h : Settles M Q s) (hQ : ∀ a, Q a → Q' a) : Settles M Q' s := by
  induction h with
  | intro _ sound live ih => exact .intro ih (fun a ha => hQ a (sound a ha)) live

/-- The same steps, with results that are made of those of the worker. -/
theorem map {f : α → β} {Q' : β → Prop} (h : Settles M Q s) (hQ : ∀ a, Q a → Q' (f a)) :
    Settles ⟨M.step, fun s => (M.result s).map f⟩ Q' s := by
  induction h with
  | @intro s _ sound live ih =>
    refine .intro ih (fun b hb => ?_) fun hnone => live (Option.map_eq_none_iff.mp hnone)
    obtain ⟨a, ha, rfl⟩ := Option.map_eq_some_iff.mp hb
    exact hQ a (sound a ha)

theorem acc (h : Settles M Q s) : Acc (fun t s => M.step s t) s := by
  induction h with
  | intro _ _ _ ih => exact Acc.intro _ ih

/-- Every state of a run settles. -/
theorem run (h : Settles M Q s) (hst : Relation.ReflTransGen M.step s t) : Settles M Q t := by
  induction hst with
  | refl => exact h
  | tail _ hstep ih => exact ih.next hstep

/-- Every run can be continued to a result. -/
theorem ends (h : Settles M Q s) :
    ∃ t a, Relation.ReflTransGen M.step s t ∧ M.result t = some a ∧ Q a := by
  induction h with
  | @intro s _ sound live ih =>
    cases hs : M.result s with
    | some a => exact ⟨s, a, .refl, hs, sound a hs⟩
    | none =>
      obtain ⟨t, hst⟩ := live hs
      obtain ⟨u, a, htu, hu, ha⟩ := ih t hst
      exact ⟨u, a, .head hst htu, hu, ha⟩

end Settles

/-! ## Lists that get smaller in one place -/

/-- One element of a list is replaced by a smaller one. -/
def Lowers (r : α → α → Prop) (l' l : List α) : Prop :=
  ∃ front back a b, r b a ∧ l = front ++ a :: back ∧ l' = front ++ b :: back

theorem acc_lowers {r : α → α → Prop} {l : List α} (h : ∀ a ∈ l, Acc r a) : Acc (Lowers r) l := by
  have hcons : ∀ p : α × List α, Acc (Prod.GameAdd r (Lowers r)) p → Acc (Lowers r) (p.1 :: p.2) := by
    intro p hp
    induction hp with
    | intro p _ ih =>
      refine Acc.intro _ ?_
      rintro l' ⟨front, back, a, b, hr, hl, rfl⟩
      obtain ⟨x, xs⟩ := p
      cases front with
      | nil =>
        obtain ⟨rfl, rfl⟩ := List.cons.inj hl
        exact ih (b, xs) (Prod.GameAdd.fst hr)
      | cons y front =>
        obtain ⟨rfl, rfl⟩ := List.cons.inj hl
        exact ih (x, front ++ b :: back) (Prod.GameAdd.snd ⟨front, back, a, b, hr, rfl, rfl⟩)
  induction l with
  | nil =>
    refine Acc.intro _ ?_
    rintro l' ⟨front, back, a, b, -, hl, -⟩
    simp at hl
  | cons a l ih =>
    obtain ⟨ha, hl⟩ := List.forall_mem_cons.mp h
    exact hcons (a, l) (ha.prod_gameAdd (ih hl))

theorem forall₂_replace {R : β → α → Prop} {qs : List β} {front back : List α} {a b : α}
    (h : List.Forall₂ R qs (front ++ a :: back)) (hab : ∀ q, R q a → R q b) :
    List.Forall₂ R qs (front ++ b :: back) := by
  induction front generalizing qs with
  | nil =>
    cases h with
    | cons ha hrest => exact .cons (hab _ ha) hrest
  | cons x front ih =>
    cases h with
    | cons hx hrest => exact .cons hx (ih hrest)

/-! ## Pools -/

/-- A task of a pool: queued, running with a permit, or finished. -/
inductive Slot (S α : Type) where
  | queued (start : S)
  | running (s : S)
  | finished (a : α)

/-- The slot has a worker that has not finished. -/
def Slot.isRunning : Slot S α → Bool
  | running _ => true
  | _ => false

/-- The free permits of a pool, and its tasks. -/
structure Pool (S α : Type) where
  free : Nat
  slots : List (Slot S α)

namespace Pool

/-- A pool of queued tasks. -/
def start (permits : Nat) (tasks : List S) : Pool S α := ⟨permits, tasks.map .queued⟩

/-- How many tasks hold a permit. -/
def running (p : Pool S α) : Nat := p.slots.countP Slot.isRunning

/-- What can happen in a pool: a queued task takes a permit, a running one makes a step, or a
running one that has a result gives its permit back. -/
inductive Step (M : Worker S α) : Pool S α → Pool S α → Prop where
  | acquire (n : Nat) (front back : List (Slot S α)) (s : S) :
      Step M ⟨n + 1, front ++ .queued s :: back⟩ ⟨n, front ++ .running s :: back⟩
  | work (n : Nat) (front back : List (Slot S α)) {s t : S} (hst : M.step s t) :
      Step M ⟨n, front ++ .running s :: back⟩ ⟨n, front ++ .running t :: back⟩
  | release (n : Nat) (front back : List (Slot S α)) {s : S} {a : α} (ha : M.result s = some a) :
      Step M ⟨n, front ++ .running s :: back⟩ ⟨n + 1, front ++ .finished a :: back⟩

/-- What a caller gets that awaits the tasks in their order and stops at the first error. Tasks that
are queued or running are awaited. -/
def joinAll : List (Slot S (Except E α)) → Option (Except E (List α))
  | [] => some (.ok [])
  | .finished (.ok a) :: slots => (joinAll slots).map (Except.map fun as => a :: as)
  | .finished (.error e) :: _ => some (.error e)
  | _ :: _ => none

/-- A pool of tasks, as a task itself. -/
def worker (M : Worker S (Except E α)) : Worker (Pool S (Except E α)) (Except E (List α)) where
  step := Step M
  result p := joinAll p.slots

/-! ### Permits -/

variable {M : Worker S α} {p q : Pool S α}

theorem Step.permits (h : Step M p q) : q.free + q.running = p.free + p.running := by
  cases h <;> simp only [running, List.countP_append, List.countP_cons, Slot.isRunning] <;> grind

/-- A pool never runs more tasks than it has permits. -/
theorem running_le {permits : Nat} {tasks : List S}
    (h : Relation.ReflTransGen (Step M) (start permits tasks) p) : p.running ≤ permits := by
  have hsum : p.free + p.running = permits := by
    induction h with
    | refl => simp [start, running, Slot.isRunning, Function.comp_def]
    | tail _ hstep ih => rw [hstep.permits, ih]
  omega

/-- What holds of every task before it runs and survives its steps holds of every running task. -/
theorem running_invariant {P : S → Prop} {permits : Nat} {tasks : List S}
    (hstart : ∀ s ∈ tasks, P s) (hkeep : ∀ s t, P s → M.step s t → P t)
    (h : Relation.ReflTransGen (Step M) (start permits tasks) p) :
    ∀ s, .queued s ∈ p.slots ∨ .running s ∈ p.slots → P s := by
  induction h with
  | refl =>
    intro s hs
    have hmem : s ∈ tasks := by simpa [start] using hs
    exact hstart s hmem
  | tail _ hstep ih =>
    intro s hs
    cases hstep <;> grind

/-! ### Settling -/

/-- A slot comes closer to its end. -/
inductive Below (M : Worker S α) : Slot S α → Slot S α → Prop where
  | acquire (s : S) : Below M (.running s) (.queued s)
  | work {s t : S} (hst : M.step s t) : Below M (.running t) (.running s)
  | release (s : S) (a : α) : Below M (.finished a) (.running s)

theorem acc_running {s : S} (h : Acc (fun t s => M.step s t) s) : Acc (Below M) (.running s) := by
  induction h with
  | intro s _ ih =>
    refine Acc.intro _ fun slot hbelow => ?_
    cases hbelow with
    | work hst => exact ih _ hst
    | release _ a => exact Acc.intro _ fun _ h => nomatch h

theorem Step.lowers (h : Step M p q) : Lowers (Below M) q.slots p.slots := by
  cases h with
  | acquire n front back s => exact ⟨front, back, _, _, .acquire s, rfl, rfl⟩
  | work n front back hst => exact ⟨front, back, _, _, .work hst, rfl, rfl⟩
  | release n front back ha => exact ⟨front, back, _, _, .release _ _, rfl, rfl⟩

/-- A task that settles, or the result of one. -/
inductive SlotOk (M : Worker S α) (Q : α → Prop) : Slot S α → Prop where
  | queued {s : S} (h : Settles M Q s) : SlotOk M Q (.queued s)
  | running {s : S} (h : Settles M Q s) : SlotOk M Q (.running s)
  | finished {a : α} (h : Q a) : SlotOk M Q (.finished a)

theorem SlotOk.acc {Q : α → Prop} {slot : Slot S α} (h : SlotOk M Q slot) : Acc (Below M) slot := by
  cases h with
  | queued h =>
    refine Acc.intro _ fun slot hbelow => ?_
    cases hbelow
    exact acc_running h.acc
  | running h => exact acc_running h.acc
  | finished h => exact Acc.intro _ fun _ h => nomatch h

theorem Step.slotOk {Qs : List (α → Prop)} (h : Step M p q)
    (hok : List.Forall₂ (fun Q slot => SlotOk M Q slot) Qs p.slots) :
    List.Forall₂ (fun Q slot => SlotOk M Q slot) Qs q.slots := by
  cases h with
  | acquire n front back s =>
    refine forall₂_replace hok fun Q hQ => ?_
    cases hQ with
    | queued h => exact .running h
  | work n front back hst =>
    refine forall₂_replace hok fun Q hQ => ?_
    cases hQ with
    | running h => exact .running (h.next hst)
  | release n front back ha =>
    refine forall₂_replace hok fun Q hQ => ?_
    cases hQ with
    | running h => exact .finished (h.sound ha)

/-- The results of tasks that are run one after the other, up to the first that fails. -/
inductive Joined : List (Except E α → Prop) → Except E (List α) → Prop where
  | nil : Joined [] (.ok [])
  | ok {Q : Except E α → Prop} {Qs : List (Except E α → Prop)} {a : α} {r : Except E (List α)}
      (hQ : Q (.ok a)) (hr : Joined Qs r) : Joined (Q :: Qs) (r.map fun as => a :: as)
  | error {Q : Except E α → Prop} (Qs : List (Except E α → Prop)) {e : E} (hQ : Q (.error e)) :
      Joined (Q :: Qs) (.error e)

section

variable {M : Worker S (Except E α)} {Qs : List (Except E α → Prop)}
  {slots : List (Slot S (Except E α))}

theorem joined_of_joinAll (hok : List.Forall₂ (fun Q slot => SlotOk M Q slot) Qs slots)
    {r : Except E (List α)} (hr : joinAll slots = some r) : Joined Qs r := by
  induction hok generalizing r with
  | nil =>
    obtain rfl := Option.some.inj hr
    exact .nil
  | @cons Q slot Qs slots hslot _ ih =>
    cases hslot with
    | queued h => cases hr
    | running h => cases hr
    | @finished a h =>
      cases a with
      | error e =>
        obtain rfl := Option.some.inj hr
        exact .error _ h
      | ok a =>
        obtain ⟨rest, hrest, rfl⟩ := Option.map_eq_some_iff.mp hr
        exact .ok h (ih hrest)

/-- While the caller waits, some task is not finished. -/
theorem exists_of_joinAll_eq_none (h : joinAll slots = none) :
    ∃ s, .queued s ∈ slots ∨ .running s ∈ slots := by
  induction slots with
  | nil => cases h
  | cons slot slots ih =>
    cases slot with
    | queued s => exact ⟨s, Or.inl List.mem_cons_self⟩
    | running s => exact ⟨s, Or.inr List.mem_cons_self⟩
    | finished a =>
      cases a with
      | error e => cases h
      | ok a =>
        obtain ⟨s, hs⟩ := ih (Option.map_eq_none_iff.mp h)
        exact ⟨s, hs.imp (List.mem_cons_of_mem _) (List.mem_cons_of_mem _)⟩

theorem slotOk_of_mem (hok : List.Forall₂ (fun Q slot => SlotOk M Q slot) Qs slots)
    {slot : Slot S (Except E α)} (h : slot ∈ slots) : ∃ Q, SlotOk M Q slot := by
  induction hok with
  | nil => cases h
  | cons hslot _ ih =>
    rcases List.mem_cons.mp h with rfl | h
    · exact ⟨_, hslot⟩
    · exact ih h

/-- While the caller waits, something can happen. -/
theorem exists_step {p : Pool S (Except E α)}
    (hok : List.Forall₂ (fun Q slot => SlotOk M Q slot) Qs p.slots)
    (hpermits : 0 < p.free + p.running) (hwait : joinAll p.slots = none) : ∃ q, Step M p q := by
  obtain ⟨free, slots⟩ := p
  by_cases hrunning : ∃ s, .running s ∈ slots
  · obtain ⟨s, hs⟩ := hrunning
    obtain ⟨Q, hQ⟩ := slotOk_of_mem hok hs
    obtain ⟨front, back, rfl⟩ := List.append_of_mem hs
    cases hQ with
    | running hsettles =>
      cases hresult : M.result s with
      | some a => exact ⟨_, .release free front back hresult⟩
      | none =>
        obtain ⟨t, hst⟩ := hsettles.live hresult
        exact ⟨_, .work free front back hst⟩
  · -- nobody holds a permit, so one is free
    have hzero : (Pool.mk free slots).running = 0 := by
      refine List.countP_eq_zero.mpr fun slot hslot => ?_
      cases slot with
      | running s => exact absurd ⟨s, hslot⟩ hrunning
      | queued s => simp [Slot.isRunning]
      | finished a => simp [Slot.isRunning]
    rw [hzero] at hpermits
    obtain ⟨s, hs | hs⟩ := exists_of_joinAll_eq_none hwait
    · obtain ⟨front, back, rfl⟩ := List.append_of_mem hs
      obtain ⟨n, rfl⟩ := Nat.exists_eq_succ_of_ne_zero hpermits.ne'
      exact ⟨_, .acquire n front back s⟩
    · exact absurd ⟨s, hs⟩ hrunning

theorem settles_of_slotOk {p : Pool S (Except E α)}
    (hok : List.Forall₂ (fun Q slot => SlotOk M Q slot) Qs p.slots)
    (hpermits : 0 < p.free + p.running) : Settles (worker M) (Joined Qs) p := by
  have hacc : Acc (Lowers (Below M)) p.slots := by
    refine acc_lowers fun slot hslot => ?_
    obtain ⟨Q, hQ⟩ := slotOk_of_mem hok hslot
    exact hQ.acc
  generalize hslots : p.slots = slots at hacc
  induction hacc generalizing p with
  | intro slots _ ih =>
    subst hslots
    refine .intro (fun q hstep => ?_) (fun r hr => joined_of_joinAll hok hr) (exists_step hok hpermits)
    have hstep : Step M p q := hstep
    exact ih q.slots hstep.lowers (hstep.slotOk hok) (by rw [hstep.permits]; exact hpermits) rfl

/-- A pool of tasks that settle settles, if it has a permit. -/
theorem settles {permits : Nat} (hpermits : 0 < permits) {tasks : List S}
    (h : List.Forall₂ (fun Q s => Settles M Q s) Qs tasks) :
    Settles (worker M) (Joined Qs) (start permits tasks) := by
  refine settles_of_slotOk ?_ (Nat.lt_of_lt_of_le hpermits (Nat.le_add_right _ _))
  exact List.forall₂_map_right_iff.mpr (h.imp fun _ _ hs => .queued hs)

end

end Pool

end NnsVerified.Library
