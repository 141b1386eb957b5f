import NnsVerified.Kernel.App
import NnsVerified.Library.MerkleTree

/-!
# `names-test.hoon`

The fixtures of the tests of the settlement gate: the root of a list of rows, the proof of a row,
and the gate under test, which is the gate of the kernel without the sets of seen values. The hash is
that of `vesl-merkle`.
-/

namespace NnsVerified.Kernel

open NnsVerified.Hoon NnsVerified.Library

/-- `+hash-leaf` and `+hash-pair` of `vesl-merkle`. -/
abbrev VeslMerkle := MerkleHash Nat Nat

/-- `+verify-chunk` climbs from the hash of the chunk; the sibling is on the left where its side is
`%.y`. -/
def Env.MerkleLaws {Acc Vesl : Type} (env : Env Acc Vesl) (merkle : VeslMerkle) : Prop :=
  ∀ chunk proof root, env.verifyChunk chunk proof root =
    .ok (decide (merkle.climb (merkle.leaf chunk) proof = root))

namespace NamesTest

variable {Acc Vesl : Type} (env : Env Acc Vesl) (merkle : VeslMerkle)

/-- `+next-level`: the parents of a level, the last one paired with itself. -/
def nextLevel (level : List Nat) : List Nat := merkle.nextLevel level

/-- `+compute-root`. -/
def computeRoot (leaves : List Nat) : Nat :=
  (merkle.root (leaves.map merkle.leaf)).getD 0

/-- `+nth` crashes where the position has neither a sibling nor a digest. -/
def proofFor (leaves : List Nat) (idx : Nat) : Eval (List (Nat × Bool)) :=
  orCrash (merkle.path (leaves.map merkle.leaf) idx)

/-- The loop of the gate under test. -/
def nnsGate.loop (expectedRoot : Nat) : List GateLeaf → Eval Bool
  | [] => pure true
  | i :: t => do
    let chunk := env.jam (Noun.tuple (.atom i.name) [.atom i.owner, .atom i.txHash])
    if !(← isValidName i.name) then return false
    if !(← env.verifyChunk chunk i.proof expectedRoot) then return false
    nnsGate.loop expectedRoot t

/-- `+nns-gate` of the test, where leaves may share a name or a transaction. -/
def nnsGate (data : Noun) (expectedRoot : Nat) : Eval Bool := do
  let leaves ← orCrash (clamList clamGateLeaf data)
  nnsGate.loop env expectedRoot leaves

end NamesTest

end NnsVerified.Kernel
