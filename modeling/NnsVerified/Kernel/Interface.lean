import NnsVerified.Kernel.App

/-!
# What the kernel answers

The nouns of the effects that a poke emits, and `+peek`.
-/

namespace NnsVerified.Kernel

open NnsVerified.Hoon NnsVerified.Library

/-! ## The nouns of effects -/

/-- The cord of a `%validate-claim-error`. -/
def ValidationError.text : ValidationError → String
  | invalidName => "invalid-name"
  | feeBelowSchedule => "fee-below-schedule"
  | pageDigestMismatch => "page-digest-mismatch"
  | txNotInPage => "tx-not-in-page"
  | chainBroken => "chain-broken"
  | anchorMismatch => "anchor-mismatch"
  | witnessTxIdMismatch => "witness-tx-id-mismatch"
  | witnessSenderMismatch => "witness-sender-mismatch"
  | witnessUnderpaid => "witness-underpaid"
  | witnessWrongTreasury => "witness-wrong-treasury"

/-- `[%tag body]`. -/
def tagged (tag : String) (body : Noun) : Noun := .cell (.atom (cord tag)) body

/-- `+$effect` as a noun. -/
def Effect.noun : Effect → Noun
  | invalidCause => tagged "invalid-cause" (.atom 0)
  | scanBlockDone height pageDigest root =>
    tagged "scan-block-done" (Noun.tuple (.atom height) [.atom pageDigest, .atom root])
  | scanBlockError e => tagged "scan-block-error" (.atom (cord e.text))
  | proveIdentityResult ok => tagged "prove-identity-result" (Noun.loob ok)
  | verifyStarkResult ok => tagged "verify-stark-result" (Noun.loob ok)
  | verifyStarkError e => tagged "verify-stark-error" (.atom (cord e.text))
  | accumulatorSnapshotVerifyResult ok =>
    tagged "accumulator-snapshot-verify-result" (Noun.loob ok)
  | accumulatorSnapshotVerifyError =>
    tagged "accumulator-snapshot-verify-error" (.atom (cord "bad-acc-jam"))
  | chainLinkResult ok => tagged "chain-link-result" (Noun.loob ok)
  | txInPageResult ok => tagged "tx-in-page-result" (Noun.loob ok)
  | validateClaimOk => tagged "validate-claim-ok" (.atom 0)
  | validateClaimError e => tagged "validate-claim-error" (.atom (cord e.text))
  | proveFailed trace => tagged "prove-failed" (.atom trace)
  | arbitraryProof product proof => tagged "arbitrary-proof" (.cell product proof)
  | claimInStarkProof product proof => tagged "claim-in-stark-proof" (.cell product proof)
  | genesisRecursiveDryRunOk ok => tagged "genesis-recursive-dry-run-ok" (Noun.loob ok)
  | genesisRecursiveProof proof => tagged "genesis-recursive-proof" proof
  | recursiveTransitionDryRunOk ok => tagged "recursive-transition-dry-run-ok" (Noun.loob ok)
  | recursiveTransitionProof proof => tagged "recursive-transition-proof" proof
  | vesl e => e

/-! ## Peeks -/

/-- A path of `+peek` itself. -/
inductive Peek where
  | accumulator (name : Nat)
  | accumulatorProof (name : Nat)
  | accumulatorRoot
  | accumulatorJam
  | scanState
  | recursiveProof
  | feeForName (name : Nat)
  deriving DecidableEq, Repr

/-- The first knot of a path. -/
def Peek.tag : Peek → String
  | accumulator _ => "accumulator"
  | accumulatorProof _ => "accumulator-proof"
  | accumulatorRoot => "accumulator-root"
  | accumulatorJam => "accumulator-jam"
  | scanState => "scan-state"
  | recursiveProof => "recursive-proof"
  | feeForName _ => "fee-for-name"

/-- The paths without a name. -/
def Peek.plain : List Peek := [accumulatorRoot, accumulatorJam, scanState, recursiveProof]

/-- The paths of a name. -/
def Peek.named (name : Nat) : List Peek :=
  [accumulator name, accumulatorProof name, feeForName name]

/-- The path that a noun is. -/
def Peek.ofPath : Noun → Option Peek
  | .cell (.atom tag) (.atom 0) => plain.find? fun p => cord p.tag = tag
  | .cell (.atom tag) (.cell (.atom name) (.atom 0)) =>
    (named name).find? fun p => cord p.tag = tag
  | _ => none

/-- The noun of a unit. -/
def unitNoun : Option Noun → Noun
  | none => .atom 0
  | some n => .cell (.atom 0) n

/-- `+$nns-accumulator-entry` as a noun. -/
def NnsAccumulatorEntry.noun (e : NnsAccumulatorEntry) : Noun :=
  Noun.tuple (.atom e.name) [.atom e.owner, .atom e.txHash, .atom e.claimHeight, .atom e.blockDigest]

/-- The imported arms that only `+peek` uses. -/
structure PeekEnv (Acc Vesl : Type) extends Env Acc Vesl where
  /-- `dig:z-by`: the axis of a key. -/
  dig : Acc → NnsNameKey → Eval (Option Nat)
  /-- The answer on the other paths: those of the graft, of the parity oracles, and
  `/kernel-debug`. -/
  otherPeek : State Acc Vesl → Noun → Eval (Option (Option Noun))

variable {Acc Vesl : Type} (env : PeekEnv Acc Vesl)

/-- `+proof-axis`. -/
def proofAxis (acc : Acc) (name : Nat) : Eval (Option Nat) := do
  let k ← nameKey env.toEnv name
  env.dig acc k

/-- The value at a path. -/
def peekValue (s : State Acc Vesl) : Peek → Eval Noun
  | .accumulator name => do
    let entry ← peekAccumulator env.toEnv s name
    pure (unitNoun (entry.map NnsAccumulatorEntry.noun))
  | .accumulatorProof name => do
    let axis ← proofAxis env s.accumulator name
    pure (unitNoun (axis.map .atom))
  | .accumulatorRoot => do
    let root ← rootAtom env.toEnv s.accumulator
    pure (.atom root)
  | .accumulatorJam => pure (.atom (env.jam (env.accumulatorNoun s.accumulator)))
  | .scanState => peekScanState env.toEnv s
  | .recursiveProof =>
    match s.recursiveProof with
    | none => pure (.atom 0)
    | some (proof, subject, formula) =>
      pure (Noun.tuple (.atom (env.jam proof)) [.atom (env.jam subject), .atom (env.jam formula)])
  | .feeForName name => do
    let fee ← feeForName name
    pure (.atom fee)

/-- `+peek`: the paths of the registry, and then the others. -/
def peek (s : State Acc Vesl) (path : Noun) : Eval (Option (Option Noun)) := do
  -- an argument of the parity oracles, which are asked first
  let _seeded ← ensureGenesisTld env.toEnv s.accumulator
  match Peek.ofPath path with
  | some p => do
    let value ← peekValue env s p
    pure (some (some value))
  | none => env.otherPeek s path

/-- The noun that the runtime hands to the hull. -/
def peekNoun (s : State Acc Vesl) (path : Noun) : Eval Noun := do
  let answer ← peek env s path
  pure (unitNoun (answer.map unitNoun))

end NnsVerified.Kernel
