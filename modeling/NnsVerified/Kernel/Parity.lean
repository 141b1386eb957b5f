import NnsVerified.Kernel.App

/-!
# The host specifications in `recursive-build.hoon`, and `tracer-parity.hoon`

What the recursive proof is meant to attest, in ordinary Hoon, and the oracles that run a trace
formula beside its specification. The previous subject, the previous formula and the block proof are
arguments of `+transition-spec` that it does not use.
-/

namespace NnsVerified.Kernel

open NnsVerified.Hoon NnsVerified.Library

variable {Acc Vesl : Type} (env : Env Acc Vesl)

/-! ## Specifications -/

/-- `+genesis-recursive-formula`: the reserved row is there, at the genesis height. -/
def genesisRecursiveFormula (acc : Acc) (height digest : Nat) : Eval Bool := do
  if !(← has env acc nnsGenesisTldName) then return false
  return height = nnsGenesisHeight && digest = 0

/-- `+prev-proof-ok-spec`: some proof, from some height. -/
def prevProofOkSpec (prevProof : Noun) (prevHeight : Nat) : Bool :=
  match prevProof with
  | .atom a => met 3 a > 0 && prevHeight > 0
  | .cell _ _ => false

/-- The loop of `+minimal-first-writer-wins`. Each turn names its result `acc` again, so that the
next turn, which changes `claims` alone, starts from the old accumulator. -/
def minimalFirstWriterWins (oldAcc : Acc) (height digest : Nat) : List NnsClaim → Eval Acc
  | [] => pure oldAcc
  | c :: t => do
    let k ← nameKey env c.name
    let _acc ←
      if ← env.zBy.has oldAcc k then pure oldAcc
      else env.zBy.put oldAcc k ⟨c.name, c.owner, c.txHash, height, digest⟩
    minimalFirstWriterWins oldAcc height digest t

/-- `+transition-spec`: what a transition should satisfy. -/
def transitionSpec (prevProof : Noun) (prevHeight : Nat) (oldAcc : Acc) (pag : NnsPageSummary)
    (claims : List NnsClaim) (wantHeight wantDigest : Nat) : Eval Bool := do
  if !prevProofOkSpec prevProof prevHeight then return false
  -- computed, and not compared with anything
  let _newAcc ← minimalFirstWriterWins env oldAcc wantHeight pag.digest claims
  if wantHeight ≠ prevHeight + 1 then return false
  if wantDigest ≠ pag.digest then return false
  return true

/-! ## Oracles -/

/-- `+parity-genesis-trace`: the specification and the dry run of the genesis. -/
def parityGenesisTrace (acc : Acc) (height digest : Nat) : Eval Bool := do
  if !(← genesisRecursiveFormula env acc height digest) then return false
  let (subj, form) := buildGenesisRecursiveInputs height digest
  dryRun env subj form

/-- `+parity-transition-empty`: those of a block without claims. -/
def parityTransitionEmpty (prevHeight pageD : Nat) (oldAcc : Acc) : Eval Bool := do
  let wantH := prevHeight + 1
  let page := fromHullAtom pageD
  let subj := emptyTransitionSubject prevHeight page wantH page
  let form := transitionTraceFormulaEmpty wantH
  if !(← transitionSpec env (.atom 1) prevHeight oldAcc ⟨pageD, []⟩ [] wantH pageD) then
    return false
  dryRun env subj form

/-- `+parity-transition-full`: those of a block with claims. -/
def parityTransitionFull (prevProof : Noun) (prevHeight : Nat) (oldAcc : Acc) (pag : NnsPageSummary)
    (claims : List NnsClaim) : Eval Bool := do
  let (subj, form) ←
    buildRecursiveTransitionInputs env prevProof prevHeight oldAcc pag claims (.atom 0) pag.digest
  if !(← transitionSpec env prevProof prevHeight oldAcc pag claims (prevHeight + 1) pag.digest) then
    return false
  dryRun env subj form

end NnsVerified.Kernel
