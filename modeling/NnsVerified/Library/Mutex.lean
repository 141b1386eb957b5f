import Mathlib.Logic.Function.Basic
import NnsVerified.Library.History

/-!
# Tasks that share a state under a mutex

A task takes the mutex once, accesses the shared state one access at a time, and releases the mutex
with its result. A schedule interleaves the turns of the tasks in any order. Only the holder of the
mutex accesses the state, so every schedule is serial: the tasks act on the state one after the
other, in the order in which they release the mutex, and a result is that of the whole task on one
state.
-/

namespace NnsVerified.Library

/-- What a task does while it holds the mutex. -/
inductive Critical (σ α : Type) where
  | done (a : α)
  /-- An access: an update of the state, and what the task does next, for the state it found. -/
  | access (update : σ → σ) (next : σ → Critical σ α)

namespace Critical

variable {σ α β ε : Type}

/-- The whole section, on a state that nobody else accesses. -/
def run : Critical σ α → σ → σ × α
  | done a, s => (s, a)
  | access update next, s => (next s).run (update s)

/-- One section after the other, without a release in between. -/
def bind : Critical σ α → (α → Critical σ β) → Critical σ β
  | done a, f => f a
  | access update next, f => access update fun s => (next s).bind f

instance : Monad (Critical σ) where
  pure := done
  bind := bind

/-- One access that changes nothing. -/
def read (f : σ → α) : Critical σ α := access id fun s => done (f s)

/-- One access that updates the state. -/
def write (f : σ → σ) : Critical σ Unit := access f fun _ => done ()

@[simp] theorem run_bind (x : Critical σ α) (f : α → Critical σ β) (s : σ) :
    (x >>= f).run s = (f (x.run s).2).run (x.run s).1 := by
  induction x generalizing s with
  | done a => rfl
  | access update next ih => exact ih s (update s)

/-! ## Sections that may fail -/

/-- One access that changes nothing and may fail. -/
def ask (f : σ → Except ε α) : ExceptT ε (Critical σ) α := ExceptT.mk (read f)

/-- A section that leaves the state. -/
def ReadOnly (x : Critical σ α) : Prop := ∀ s, (x.run s).1 = s

theorem run_bindCont (x : ExceptT ε (Critical σ) α) (f : α → ExceptT ε (Critical σ) β) (s : σ) :
    (x >>= f).run.run s
      = (ExceptT.bindCont f (x.run.run s).2).run (x.run.run s).1 :=
  run_bind x.run (ExceptT.bindCont f) s

/-- A sequence that succeeds is one of two parts that do. -/
theorem run_bind_ok {x : ExceptT ε (Critical σ) α} {f : α → ExceptT ε (Critical σ) β} {s t : σ}
    {b : β} (h : (x >>= f).run.run s = (t, .ok b)) :
    ∃ u a, x.run.run s = (u, .ok a) ∧ (f a).run.run u = (t, .ok b) := by
  rw [run_bindCont] at h
  generalize x.run.run s = r at h ⊢
  obtain ⟨u, result⟩ := r
  cases result with
  | error e =>
    have herr : (.error e : Except ε β) = .ok b := (Prod.mk.inj h).2
    cases herr
  | ok a => exact ⟨u, a, rfl, h⟩

theorem run_ask_ok {f : σ → Except ε α} {s t : σ} {a : α} (h : (ask f).run.run s = (t, .ok a)) :
    t = s ∧ f s = .ok a := by
  obtain ⟨hstate, hvalue⟩ := Prod.mk.inj h
  exact ⟨hstate.symm, hvalue⟩

theorem run_pure_ok {s t : σ} {a b : α}
    (h : (pure a : ExceptT ε (Critical σ) α).run.run s = (t, .ok b)) : t = s ∧ a = b := by
  obtain ⟨hstate, hvalue⟩ := Prod.mk.inj h
  exact ⟨hstate.symm, Except.ok.inj hvalue⟩

theorem readOnly_ask (f : σ → Except ε α) : ReadOnly (ask f).run := fun _ => rfl

theorem readOnly_bind {x : ExceptT ε (Critical σ) α} {f : α → ExceptT ε (Critical σ) β}
    (hx : ReadOnly x.run) (hf : ∀ a, ReadOnly (f a).run) : ReadOnly (x >>= f).run := by
  intro s
  rw [run_bindCont, hx s]
  cases (x.run.run s).2 with
  | error e => rfl
  | ok a => exact hf a s

end Critical

/-! ## Schedules -/

/-- A task before it holds the mutex, while it does, and after. -/
inductive Task (σ α : Type) where
  | waiting (p : Critical σ α)
  | running (p : Critical σ α)
  | finished (a : α)

/-- The shared state, the holder of the mutex, and the tasks. -/
structure Machine (ι σ α : Type) where
  shared : σ
  holder : Option ι
  task : ι → Task σ α

/-- Who moves next: to take the mutex, to do one access, or to give the mutex back. -/
inductive Turn (ι : Type) where
  | acquire (i : ι)
  | access (i : ι)
  | release (i : ι)

variable {ι σ α : Type} [DecidableEq ι]

/-- A turn of a schedule, with the task that it finishes. A turn that the task cannot take does
nothing. -/
def turn (m : Machine ι σ α) : Turn ι → Machine ι σ α × Option ι
  | .acquire i =>
    match m.holder, m.task i with
    | none, .waiting p =>
      ({ m with holder := some i, task := Function.update m.task i (.running p) }, none)
    | _, _ => (m, none)
  | .access i =>
    match m.task i with
    | .running (.access update next) =>
      ({ m with
        shared := update m.shared
        task := Function.update m.task i (.running (next m.shared)) }, none)
    | _ => (m, none)
  | .release i =>
    match m.task i with
    | .running (.done a) =>
      ({ m with holder := none, task := Function.update m.task i (.finished a) }, some i)
    | _ => (m, none)

/-- The state after the sections of a list of tasks, one after the other. -/
def serial (tasks : ι → Task σ α) (s : σ) (log : List ι) : σ :=
  log.foldl (fun s i => match tasks i with
    | .waiting p => (p.run s).1
    | _ => s) s

omit [DecidableEq ι] in
theorem serial_concat (tasks : ι → Task σ α) (s : σ) (log : List ι) (i : ι) :
    serial tasks s (log ++ [i]) = match tasks i with
      | .waiting p => (p.run (serial tasks s log)).1
      | _ => serial tasks s log := by
  simp only [serial, List.foldl_append, List.foldl_cons, List.foldl_nil]

/-- What a task of the machine says: it has not started, or it holds the mutex, or its result is
that of its whole section on the state that the tasks before it made. -/
def Accounted (tasks : ι → Task σ α) (s : σ) (log : List ι) (holder : Option ι) (i : ι) :
    Task σ α → Prop
  | .waiting p => tasks i = .waiting p
  | .running _ => holder = some i
  | .finished a => tasks i = .finished a ∨ ∃ p before, tasks i = .waiting p ∧
      before ++ [i] <+: log ∧ a = (p.run (serial tasks s before)).2

/-- The machine acts as the tasks of the log do, one after the other. -/
structure Serial (tasks : ι → Task σ α) (s : σ) (log : List ι) (m : Machine ι σ α) : Prop where
  free : m.holder = none → m.shared = serial tasks s log
  held : ∀ i, m.holder = some i → ∃ p q, tasks i = .waiting p ∧ m.task i = .running q ∧
    p.run (serial tasks s log) = q.run m.shared
  accounted : ∀ i, Accounted tasks s log m.holder i (m.task i)

section

variable {tasks : ι → Task σ α} {s : σ} {log log' : List ι} {m : Machine ι σ α} {i : ι}

omit [DecidableEq ι] in
theorem Accounted.mono {holder holder' : Option ι} {t : Task σ α}
    (h : Accounted tasks s log holder i t) (hlog : log <+: log')
    (hholder : holder = some i → holder' = some i) : Accounted tasks s log' holder' i t := by
  cases t with
  | waiting p => exact h
  | running q => exact hholder h
  | finished a =>
    rcases h with hdirect | ⟨p, before, hp, hbefore, ha⟩
    · exact Or.inl hdirect
    · exact Or.inr ⟨p, before, hp, hbefore.trans hlog, ha⟩

omit [DecidableEq ι] in
/-- A task that is running holds the mutex. -/
theorem Serial.exclusive (h : Serial tasks s log m) {q : Critical σ α} (hi : m.task i = .running q) :
    m.holder = some i := by
  have haccounted := h.accounted i
  rw [hi] at haccounted
  exact haccounted

theorem Serial.acquire (h : Serial tasks s log m) {p : Critical σ α} (hfree : m.holder = none)
    (hi : m.task i = .waiting p) :
    Serial tasks s log
      { m with holder := some i, task := Function.update m.task i (.running p) } := by
  have hp : tasks i = .waiting p := by
    have haccounted := h.accounted i
    rw [hi] at haccounted
    exact haccounted
  refine ⟨fun hnone => ?_, fun j hj => ?_, fun j => ?_⟩
  · cases hnone
  · obtain rfl := Option.some.inj hj
    exact ⟨p, p, hp, Function.update_self .., by rw [h.free hfree]⟩
  · by_cases hji : j = i
    · subst hji
      dsimp only
      rw [Function.update_self]
      rfl
    · dsimp only
      rw [Function.update_of_ne hji]
      refine (h.accounted j).mono (List.prefix_refl _) fun hholder => ?_
      rw [hfree] at hholder
      cases hholder

theorem Serial.access (h : Serial tasks s log m) {update : σ → σ} {next : σ → Critical σ α}
    (hi : m.task i = .running (.access update next)) :
    Serial tasks s log
      { m with
        shared := update m.shared
        task := Function.update m.task i (.running (next m.shared)) } := by
  have hholder := h.exclusive hi
  refine ⟨fun hnone => ?_, fun j hj => ?_, fun j => ?_⟩
  · rw [hholder] at hnone
    cases hnone
  · have hij : i = j := Option.some.inj (hholder.symm.trans hj)
    subst hij
    obtain ⟨p, q, hp, hq, hrun⟩ := h.held i hj
    obtain rfl := Task.running.inj (hi.symm.trans hq)
    exact ⟨p, next m.shared, hp, Function.update_self .., hrun⟩
  · by_cases hji : j = i
    · subst hji
      dsimp only
      rw [Function.update_self]
      exact hholder
    · dsimp only
      rw [Function.update_of_ne hji]
      exact h.accounted j

/-- The holder that releases the mutex joins the log with its whole section. -/
theorem Serial.release (h : Serial tasks s log m) {a : α} (hi : m.task i = .running (.done a)) :
    Serial tasks s (log ++ [i])
      { m with holder := none, task := Function.update m.task i (.finished a) } := by
  have hholder := h.exclusive hi
  obtain ⟨p, q, hp, hq, hrun⟩ := h.held i hholder
  obtain rfl := Task.running.inj (hi.symm.trans hq)
  obtain ⟨hstate, hresult⟩ := Prod.ext_iff.mp hrun
  refine ⟨fun _ => ?_, fun j hj => ?_, fun j => ?_⟩
  · rw [serial_concat, hp]
    exact hstate.symm
  · cases hj
  · by_cases hji : j = i
    · subst hji
      dsimp only
      rw [Function.update_self]
      exact Or.inr ⟨p, log, hp, List.prefix_refl _, hresult.symm⟩
    · dsimp only
      rw [Function.update_of_ne hji]
      refine (h.accounted j).mono (List.prefix_append _ _) fun hj => ?_
      exact absurd (Option.some.inj (hholder.symm.trans hj)).symm hji

theorem Serial.turn (h : Serial tasks s log m) (t : Turn ι) :
    Serial tasks s (log ++ (turn m t).2.toList) (turn m t).1 := by
  cases t with
  | acquire i =>
    cases hholder : m.holder with
    | some j => simpa [Library.turn, hholder] using h
    | none =>
      cases hi : m.task i with
      | waiting p => simpa [Library.turn, hholder, hi] using h.acquire hholder hi
      | running q => simpa [Library.turn, hholder, hi] using h
      | finished a => simpa [Library.turn, hholder, hi] using h
  | access i =>
    cases hi : m.task i with
    | waiting p => simpa [Library.turn, hi] using h
    | running q =>
      cases q with
      | done a => simpa [Library.turn, hi] using h
      | access update next => simpa [Library.turn, hi] using h.access hi
    | finished a => simpa [Library.turn, hi] using h
  | release i =>
    cases hi : m.task i with
    | waiting p => simpa [Library.turn, hi] using h
    | running q =>
      cases q with
      | done a => simpa [Library.turn, hi] using h.release hi
      | access update next => simpa [Library.turn, hi] using h
    | finished a => simpa [Library.turn, hi] using h

end

/-- Every schedule of tasks that have not started is serial. -/
theorem serial_schedule (tasks : ι → Task σ α) (s : σ) (hstart : ∀ i q, tasks i ≠ .running q)
    (schedule : List (Turn ι)) :
    Serial tasks s (history turn ⟨s, none, tasks⟩ schedule) (final turn ⟨s, none, tasks⟩ schedule) := by
  refine history_invariant (I := Serial tasks s) (fun log m t h => h.turn t) _ schedule [] ?_
  refine ⟨fun _ => rfl, fun i hi => ?_, fun i => ?_⟩
  · cases hi
  show Accounted tasks s [] none i (tasks i)
  cases hi : tasks i with
  | waiting p => exact hi
  | running q => exact absurd hi (hstart i q)
  | finished a => exact Or.inl hi

/-! ## The order of the tasks -/

/-- A turn changes at most one task, one that has not finished, and logs it where it finishes. -/
theorem turn_cases (m : Machine ι σ α) (t : Turn ι) :
    turn m t = (m, none) ∨
    ∃ i u, (∀ a, m.task i ≠ .finished a) ∧ (turn m t).1.task = Function.update m.task i u ∧
      ((turn m t).2 = none ∨ (turn m t).2 = some i ∧ ∃ a, u = .finished a) := by
  cases t with
  | acquire i =>
    cases hholder : m.holder with
    | some j => exact Or.inl (by simp [turn, hholder])
    | none =>
      cases hi : m.task i with
      | waiting p =>
        exact Or.inr ⟨i, .running p, by simp [hi], by simp [turn, hholder, hi],
          Or.inl (by simp [turn, hholder, hi])⟩
      | running q => exact Or.inl (by simp [turn, hholder, hi])
      | finished a => exact Or.inl (by simp [turn, hholder, hi])
  | access i =>
    cases hi : m.task i with
    | waiting p => exact Or.inl (by simp [turn, hi])
    | running q =>
      cases q with
      | done a => exact Or.inl (by simp [turn, hi])
      | access update next =>
        exact Or.inr ⟨i, .running (next m.shared), by simp [hi], by simp [turn, hi],
          Or.inl (by simp [turn, hi])⟩
    | finished a => exact Or.inl (by simp [turn, hi])
  | release i =>
    cases hi : m.task i with
    | waiting p => exact Or.inl (by simp [turn, hi])
    | running q =>
      cases q with
      | done a =>
        exact Or.inr ⟨i, .finished a, by simp [hi], by simp [turn, hi],
          Or.inr ⟨by simp [turn, hi], a, rfl⟩⟩
      | access update next => exact Or.inl (by simp [turn, hi])
    | finished a => exact Or.inl (by simp [turn, hi])

/-- The tasks of the log have finished. -/
theorem finished_of_mem_history (m : Machine ι σ α) (schedule : List (Turn ι)) {i : ι}
    (h : i ∈ history turn m schedule) : ∃ a, (final turn m schedule).task i = .finished a := by
  refine history_invariant (I := fun log m => ∀ i ∈ log, ∃ a, m.task i = .finished a) ?_ m schedule
    [] (by simp) i (by simpa using h)
  intro log m t hlog i hi
  rcases turn_cases m t with hsame | ⟨j, u, hj, htask, hlogged⟩
  · rw [hsame] at hi ⊢
    exact hlog i (by simpa using hi)
  rw [htask]
  rcases List.mem_append.mp hi with hi | hi
  · obtain ⟨a, ha⟩ := hlog i hi
    refine ⟨a, ?_⟩
    rw [Function.update_of_ne, ha]
    rintro rfl
    exact hj a ha
  · rcases hlogged with hnone | ⟨hsome, a, rfl⟩
    · rw [hnone] at hi
      cases hi
    · rw [hsome] at hi
      obtain rfl : i = j := by simpa using hi
      exact ⟨a, Function.update_self ..⟩

/-- What has finished at a time at which a task has not comes before the task in the log. -/
theorem history_prefix_before {m : Machine ι σ α} {pre post : List (Turn ι)} {before : List ι}
    {i : ι} (hunfinished : ∀ a, (final turn m pre).task i ≠ .finished a)
    (hbefore : before ++ [i] <+: history turn m (pre ++ post)) :
    history turn m pre <+: before := by
  have hnot : i ∉ history turn m pre := fun hi => by
    obtain ⟨a, ha⟩ := finished_of_mem_history m pre hi
    exact hunfinished a ha
  have hpre : history turn m pre <+: history turn m (pre ++ post) := by
    rw [history_append]
    exact List.prefix_append _ _
  rcases List.prefix_or_prefix_of_prefix hpre hbefore with hle | hle
  · rcases List.prefix_concat_iff.mp hle with heq | hle
    · exact absurd (by rw [heq]; simp) hnot
    · exact hle
  · exact absurd (hle.subset (by simp)) hnot

end NnsVerified.Library
