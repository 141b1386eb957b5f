import NnsVerified.Hoon.Executed
import NnsVerified.Hull.FormulaNock
import NnsVerified.Hull.Sample
import NnsVerified.Kernel.Tracer

/-!
# The scan of trace formulas is safe

The scan passes a noun exactly when none of its cells has a banned opcode for its head. Trace
formulas are such nouns: their axes and literals stand in tails. And a formula that the scan passes
executes no banned opcode before a Nock 2.
-/

namespace NnsVerified.Hull

open NnsVerified.Hoon NnsVerified.Kernel

/-- The opcodes that the prover cannot trace. -/
def Banned (op : Nat) : Prop := 9 ≤ op ∧ op ≤ 11

section

variable {H Z L : Type} {c : Crates H Z L}

/-- A head that does not fit 64 bits is not banned either. -/
theorem any_asU64_eq_false_iff (hn : c.NounLaws) (a : Nat) :
    (c.asU64 a).any (fun v => 9 ≤ v && v ≤ 11) = false ↔ ¬Banned a := by
  rw [hn.asU64_eq]
  unfold Banned
  split
  · next hlt =>
    have hval : (UInt64.ofNat a).toNat = a := UInt64.toNat_ofNat_of_lt hlt
    simp [UInt64.le_iff_toNat_le, hval]
  · next hge =>
    simp only [Option.any_none, true_iff]
    omega

theorem walk_eq_false_iff (hn : c.NounLaws) (f : Noun) : walk c f = false ↔ NoHead Banned f := by
  induction f with
  | atom a => simp [walk]
  | cell p q ihp ihq =>
    cases p with
    | atom op =>
      rw [noHead_cell_atom, ← ihq, ← any_asU64_eq_false_iff hn]
      simp [walk]
    | cell p p' =>
      rw [noHead_cell_cell, ← ihp, ← ihq]
      simp [walk]

end

/-! ## Trace formulas -/

/-- A formula that the scan passes, wherever it stands. -/
structure Passes (f : Noun) : Prop where
  isCell : ∃ p q, f = .cell p q
  noHead : NoHead Banned f

section

variable {p q r : Noun}

theorem Passes.noHead_cell (hp : Passes p) (hq : NoHead Banned q) : NoHead Banned (.cell p q) := by
  obtain ⟨s, t, rfl⟩ := hp.isCell
  exact noHead_cell_cell.mpr ⟨hp.noHead, hq⟩

/-- An opcode before the parts of a formula. -/
theorem passes_op {op : Nat} (hop : ¬Banned op) (hq : NoHead Banned q) :
    Passes (.cell (.atom op) q) :=
  ⟨⟨_, _, rfl⟩, noHead_cell_atom.mpr ⟨hop, hq⟩⟩

theorem passes_tracePick (axis : Nat) : Passes (tracePick axis) :=
  passes_op (by simp [Banned]) (noHead_atom axis)

theorem passes_traceLit (x : Nat) : Passes (traceLit x) :=
  passes_op (by simp [Banned]) (noHead_atom x)

theorem passes_traceEq (hp : Passes p) (hq : Passes q) : Passes (traceEq p q) :=
  passes_op (by simp [Banned]) (hp.noHead_cell hq.noHead)

theorem passes_if (hp : Passes p) (hq : Passes q) (hr : Passes r) :
    Passes (Noun.tuple (.atom 6) [p, q, r]) :=
  passes_op (by simp [Banned]) (hp.noHead_cell (hq.noHead_cell hr.noHead))

theorem passes_traceAnd (hp : Passes p) (hq : Passes q) : Passes (traceAnd p q) :=
  passes_if hp (passes_if hq (passes_traceLit 0) (passes_traceLit 1)) (passes_traceLit 1)

theorem passes_traceEqPicks (axis axis' : Nat) :
    Passes (traceEq (tracePick axis) (tracePick axis')) :=
  passes_traceEq (passes_tracePick axis) (passes_tracePick axis')

theorem passes_traceEqLimbPairs (pairs : List (Nat × Nat)) : Passes (traceEqLimbPairs pairs) := by
  induction pairs with
  | nil => exact passes_traceLit 1
  | cons pair t ih => exact passes_traceAnd (passes_traceEqPicks pair.1 pair.2) ih

theorem passes_traceNode (constraint : TraceConstraint) : Passes (traceNode constraint) := by
  have hlit : ∀ axis x, Passes (traceEq (tracePick axis) (traceLit x)) := fun axis x =>
    passes_traceEq (passes_tracePick axis) (passes_traceLit x)
  cases constraint with
  | nonzero axis => exact passes_if (hlit axis 0) (passes_traceLit 1) (passes_traceLit 0)
  | eq axis lit => exact hlit axis lit
  | eqDigestLimbs pairs => exact passes_traceEqLimbPairs pairs
  | fww candAxis accAxis =>
    exact passes_if (hlit candAxis 0) (passes_traceLit 0)
      (passes_if (passes_traceEqPicks accAxis candAxis) (passes_traceLit 1) (passes_traceLit 0))

theorem passes_compileTrace (spec : List TraceConstraint) : Passes (compileTrace spec) := by
  induction spec with
  | nil => exact passes_traceLit 1
  | cons constraint t ih =>
    cases t with
    | nil => exact passes_traceNode constraint
    | cons next t => exact passes_traceAnd (passes_traceNode constraint) ih

end

/-- The scan passes every trace formula, and what it passes executes none of the opcodes 9, 10 and 11
before a Nock 2. -/
theorem formulaScan_safe {H Z L : Type} {c : Crates H Z L} (hn : c.NounLaws) :
    (∀ spec, formulaContainsBannedNockOpcodes c (compileTrace spec) = false) ∧
    ∀ f, formulaContainsBannedNockOpcodes c f = false →
      ∀ n a, ∀ op ∈ (executed n a f).takeWhile (· ≠ 2), op ≠ 9 ∧ op ≠ 10 ∧ op ≠ 11 := by
  constructor
  · intro spec
    exact (walk_eq_false_iff hn _).mpr (passes_compileTrace spec).noHead
  · intro f hf n a op hop
    have hcall : Banned 9 := ⟨le_rfl, by omega⟩
    have hspares := executed_spares hcall ((walk_eq_false_iff hn f).mp hf) n a op hop
    unfold Banned at hspares
    omega

/-- The crates of the sample, on a formula that increments. -/
theorem formulaScan_safe_increment :
    formulaContainsBannedNockOpcodes sampleCrates (compileTrace [.eq 9 10, .fww 11 9]) = false ∧
      ∀ op ∈ (executed 3 (.atom 7) (.cell (.atom 4) (.cell (.atom 0) (.atom 1)))).takeWhile (· ≠ 2),
        op ≠ 9 ∧ op ≠ 10 ∧ op ≠ 11 :=
  ⟨(formulaScan_safe sampleCrates_nounLaws).1 _,
    (formulaScan_safe sampleCrates_nounLaws).2 _ (by decide +kernel) 3 (.atom 7)⟩

end NnsVerified.Hull
