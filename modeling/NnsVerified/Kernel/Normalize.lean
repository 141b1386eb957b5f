import NnsVerified.Hoon.Atom

/-!
# `nns-predicates.hoon`: the formula rewriter

`+normalize-to-0-8` rewrites a formula into one without the opcodes 9, 10 and 11. The axis that it
walks for an edit comes from the formula, and nothing bounds the walk, so each arm takes a budget of
nested calls and hangs where the budget does not suffice.
-/

namespace NnsVerified.Kernel

open NnsVerified.Hoon NnsVerified.Hoon.Noun

/-- `+ta-axis`: an axis of `T`, inside `[T a]`. -/
def taAxis : Nat → Nat → Eval Nat
  | 0, _ => .error .hang
  | n + 1, k => do
    if k = 1 then return 2
    let parent ← taAxis n (k / 2)
    if k % 2 = 0 then return 2 * parent
    return 2 * parent + 1

/-- The axis of the other half of the parent's cell. -/
def siblingAxis (axis : Nat) : Eval Nat := if axis % 2 = 0 then pure (axis + 1) else sub axis 1

/-- `+rebuild-at-axis`: a formula on `[T a]` for `T` with the product of `current` at the axis. -/
def rebuildAtAxis : Nat → Nat → Noun → Eval Noun
  | 0, _, _ => .error .hang
  | n + 1, axis, current => do
    if axis = 1 then return current
    let parent := axis / 2
    let sibling ← siblingAxis axis
    let siblingTaAxis ← taAxis n sibling
    let siblingFetch := cell (atom 0) (atom siblingTaAxis)
    let newCurrent :=
      if axis % 2 = 0 then cell current siblingFetch else cell siblingFetch current
    rebuildAtAxis n parent newCurrent

/-- `+normalize-to-0-8`. A noun that does not have the shape of its opcode stays as it is. -/
def normalizeTo08 : Nat → Noun → Eval Noun
  | 0, _ => .error .hang
  | n + 1, f =>
    match f with
    | atom a => pure (atom a)
    | cell (cell p q) t => do
      let head ← normalizeTo08 n (cell p q)
      let tail ← normalizeTo08 n t
      pure (cell head tail)
    | cell (atom 1) c => do
      let c' ← normalizeTo08 n c
      pure (cell (atom 1) c')
    | cell (atom 2) (cell b c) => do
      let b' ← normalizeTo08 n b
      let c' ← normalizeTo08 n c
      pure (cell (atom 2) (cell b' c'))
    | cell (atom 3) b => do
      let b' ← normalizeTo08 n b
      pure (cell (atom 3) b')
    | cell (atom 4) b => do
      let b' ← normalizeTo08 n b
      pure (cell (atom 4) b')
    | cell (atom 5) (cell b c) => do
      let b' ← normalizeTo08 n b
      let c' ← normalizeTo08 n c
      pure (cell (atom 5) (cell b' c'))
    | cell (atom 6) (cell b (cell c d)) => do
      let b' ← normalizeTo08 n b
      let c' ← normalizeTo08 n c
      let d' ← normalizeTo08 n d
      pure (cell (atom 6) (cell b' (cell c' d')))
    | cell (atom 7) (cell b c) => do
      let b' ← normalizeTo08 n b
      let c' ← normalizeTo08 n c
      pure (cell (atom 7) (cell b' c'))
    | cell (atom 8) (cell b c) => do
      let b' ← normalizeTo08 n b
      let c' ← normalizeTo08 n c
      pure (cell (atom 8) (cell b' c'))
    | cell (atom 9) (cell (atom axis) c) => do
      let core ← normalizeTo08 n c
      pure (tuple (atom 7) [core, tuple (atom 2)
        [cell (atom 0) (atom 1), cell (atom 0) (atom axis)]])
    | cell (atom 10) (cell (cell (atom editAxis) v) t) => do
      let value ← normalizeTo08 n v
      let target ← normalizeTo08 n t
      let vFetch := tuple (atom 7) [cell (atom 0) (atom 3), value]
      let rebuild ← rebuildAtAxis n editAxis vFetch
      pure (tuple (atom 8) [target, rebuild])
    | cell (atom 11) (cell _ t) => do
      let next ← normalizeTo08 n t
      pure (tuple (atom 7) [cell (atom 0) (atom 1), next])
    | f => pure f

end NnsVerified.Kernel
