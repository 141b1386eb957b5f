import NnsVerified.Kernel.Interface

/-!
# Peeks

The path of a peek is read back as that peek, so that its answer is the value at the path.
-/

namespace NnsVerified.Kernel

open NnsVerified.Hoon NnsVerified.Library

/-- The path of a peek. -/
def Peek.path (p : Peek) : Noun :=
  match p with
  | accumulator name | accumulatorProof name | feeForName name =>
    Noun.tuple (.atom (cord p.tag)) [.atom name, .atom 0]
  | accumulatorRoot | accumulatorJam | scanState | recursiveProof =>
    .cell (.atom (cord p.tag)) (.atom 0)

theorem plainTags_nodup : (Peek.plain.map fun p => cord p.tag).Nodup := by decide

theorem namedTags_nodup (name : Nat) : ((Peek.named name).map fun p => cord p.tag).Nodup := by
  have h : [cord "accumulator", cord "accumulator-proof", cord "fee-for-name"].Nodup := by
    decide
  exact h

theorem ofPath_plain {p : Peek} (h : p ∈ Peek.plain) :
    Peek.ofPath (.cell (.atom (cord p.tag)) (.atom 0)) = some p :=
  find_cord plainTags_nodup h

theorem ofPath_named {name : Nat} {p : Peek} (h : p ∈ Peek.named name) :
    Peek.ofPath (Noun.tuple (.atom (cord p.tag)) [.atom name, .atom 0]) = some p :=
  find_cord (namedTags_nodup name) h

theorem ofPath_path (p : Peek) : Peek.ofPath p.path = some p := by
  cases p with
  | accumulator name => exact ofPath_named (by simp [Peek.named])
  | accumulatorProof name => exact ofPath_named (by simp [Peek.named])
  | feeForName name => exact ofPath_named (by simp [Peek.named])
  | accumulatorRoot => exact ofPath_plain (by simp [Peek.plain])
  | accumulatorJam => exact ofPath_plain (by simp [Peek.plain])
  | scanState => exact ofPath_plain (by simp [Peek.plain])
  | recursiveProof => exact ofPath_plain (by simp [Peek.plain])

variable {Acc Vesl : Type} {env : PeekEnv Acc Vesl} {s : State Acc Vesl}

/-- A peek answers when the accumulator can be seeded and the value computed. -/
theorem peekNoun_path (p : Peek) : peekNoun env s p.path = (do
    let _seeded ← ensureGenesisTld env.toEnv s.accumulator
    let value ← peekValue env s p
    pure (Noun.tuple (.atom 0) [.atom 0, value])) := by
  unfold peekNoun peek
  rw [ofPath_path]
  cases ensureGenesisTld env.toEnv s.accumulator with
  | error e => rfl
  | ok acc =>
    cases hvalue : peekValue env s p with
    | error e => simp only [ok_bind, hvalue]; rfl
    | ok value => simp only [ok_bind, hvalue]; rfl

/-- A peek that answers gives the value at its path. -/
theorem peekNoun_path_ok {p : Peek} {answer : Noun} (h : peekNoun env s p.path = .ok answer) :
    ∃ value, peekValue env s p = .ok value ∧ answer = Noun.tuple (.atom 0) [.atom 0, value] := by
  rw [peekNoun_path] at h
  obtain ⟨seeded, -, h⟩ := bind_eq_ok h
  obtain ⟨value, hvalue, h⟩ := bind_eq_ok h
  exact ⟨value, hvalue, (Except.ok.inj h).symm⟩

end NnsVerified.Kernel
