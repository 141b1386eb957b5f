import NnsVerified.Hull.Crates

/-!
# `formula_nock.rs`

The scan of trace formulas for opcodes that the prover cannot trace.
-/

namespace NnsVerified.Hull

open NnsVerified.Hoon

variable {H Z L : Type} (c : Crates H Z L)

/-- The scan takes the head of every cell for an opcode, whether the cell is code or not. -/
def walk : Noun → Bool
  | .atom _ => false
  | .cell head tail =>
    let banned := match head with
      | .atom ah => (c.asU64 ah).any fun v => 9 ≤ v && v ≤ 11
      | .cell _ _ => false
    if banned then true else walk head || walk tail

/-- `formula_contains_banned_nock_opcodes`. -/
def formulaContainsBannedNockOpcodes (formula : Noun) : Bool := walk c formula

end NnsVerified.Hull
