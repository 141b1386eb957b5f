import Mathlib.Data.Finset.Insert
import NnsVerified.Hoon.Nock
import NnsVerified.Library.History
import NnsVerified.Kernel.Tracer

/-!
# `app.hoon`

The kernel: its state, the causes it takes with their molds, the effects it emits, and `+poke` with
every arm. A poke that crashes or exceeds the budget yields no effects and leaves the state alone,
because the runtime discards the event.
-/

namespace NnsVerified.Kernel

open NnsVerified.Hoon NnsVerified.Library

/-! ## State, causes, effects -/

/-- `+$v0-state`. -/
structure State (Acc Vesl : Type) where
  accumulator : Acc
  lastProvedHeight : Nat
  lastProvedDigest : Nat
  vesl : Vesl
  lastProved : Option (Noun × Noun)
  recursiveProof : Option (Noun × Noun × Noun)
  deriving DecidableEq

/-- The payload of `%scan-block`. -/
structure ScanBlock where
  parent : Nat
  height : Nat
  pageDigest : Nat
  pageTxIds : List Nat
  claims : List NnsClaim
  deriving DecidableEq, Repr

/-- The page summary of a scanned block. -/
def ScanBlock.page (c : ScanBlock) : NnsPageSummary := ⟨c.pageDigest, c.pageTxIds⟩

/-- The payload of `%prove-recursive-transition`. -/
structure ProveTransition where
  prevProofJam : Nat
  prevSubjectJam : Nat
  prevFormulaJam : Nat
  pageDigest : Nat
  pageTxIds : List Nat
  claims : List NnsClaim
  blockProof : Noun
  deriving DecidableEq, Repr

/-- The payload of `%verify-accumulator-snapshot`. -/
structure VerifySnapshot where
  expectedRoot : Nat
  accJam : Nat
  entry : NnsAccumulatorEntry
  deriving DecidableEq, Repr

/-- `+$cause`: what the kernel is poked with. -/
inductive Cause where
  | proveRecursiveGenesis
  | proveRecursiveTransition (p : ProveTransition)
  | verifyStark (blob : Noun)
  | verifyStarkExplicit (blob subjectJam formulaJam : Noun)
  | verifyAccumulatorSnapshot (v : VerifySnapshot)
  | proveIdentity
  | scanBlock (c : ScanBlock)
  | verifyChainLink (claimDigest : Nat) (headers : List AnchorHeader) (anchoredTip : Nat)
  | verifyTxInPage (digest : Nat) (txIds : List Nat) (claimedTxId : Nat)
  | validateClaim (bundle : ClaimBundle)
  | proveArbitrary (subjectJam formulaJam : Nat)
  | proveClaimInStark (bundle : ClaimBundleLinear)
  | vesl (tag : VeslTag) (body : Noun)
  deriving DecidableEq, Repr

/-- The reasons of `%scan-block-error`. -/
inductive ScanBlockFault where
  | parentMismatch
  | heightNotSuccessor
  | claimScannerTrap
  | accumulatorRootTrap
  deriving DecidableEq, Repr

/-- The cord of a `%scan-block-error`. -/
def ScanBlockFault.text : ScanBlockFault → String
  | parentMismatch => "parent-mismatch"
  | heightNotSuccessor => "height-not-successor"
  | claimScannerTrap => "claim-scanner-trap"
  | accumulatorRootTrap => "accumulator-root-trap"

/-- The reasons of `%verify-stark-error`. -/
inductive VerifyStarkFault where
  | blobNotAtom
  | subjectJamNotAtom
  | formulaJamNotAtom
  | badJam
  | badSubjectJam
  | badFormulaJam
  | noCachedSf
  deriving DecidableEq, Repr

/-- The cord of a `%verify-stark-error`. -/
def VerifyStarkFault.text : VerifyStarkFault → String
  | blobNotAtom => "blob-not-atom"
  | subjectJamNotAtom => "subject-jam-not-atom"
  | formulaJamNotAtom => "formula-jam-not-atom"
  | badJam => "bad-jam"
  | badSubjectJam => "bad-subject-jam"
  | badFormulaJam => "bad-formula-jam"
  | noCachedSf => "no-cached-sf"

/-- The effects of the kernel; those of the graft stay opaque. -/
inductive Effect where
  | invalidCause
  | scanBlockDone (height pageDigest root : Nat)
  | scanBlockError (e : ScanBlockFault)
  | proveIdentityResult (ok : Bool)
  | verifyStarkResult (ok : Bool)
  | verifyStarkError (e : VerifyStarkFault)
  | accumulatorSnapshotVerifyResult (ok : Bool)
  /-- The reason is always `'bad-acc-jam'`. -/
  | accumulatorSnapshotVerifyError
  | chainLinkResult (ok : Bool)
  | txInPageResult (ok : Bool)
  | validateClaimOk
  | validateClaimError (e : ValidationError)
  | proveFailed (trace : Nat)
  | arbitraryProof (product proof : Noun)
  | claimInStarkProof (product proof : Noun)
  | genesisRecursiveDryRunOk (ok : Bool)
  | genesisRecursiveProof (proof : Noun)
  | recursiveTransitionDryRunOk (ok : Bool)
  | recursiveTransitionProof (proof : Noun)
  | vesl (e : Noun)
  deriving DecidableEq, Repr

/-! ## The mold of causes -/

/-- The tags of the causes. -/
inductive CauseTag where
  | proveRecursiveGenesis
  | proveRecursiveTransition
  | verifyStark
  | verifyStarkExplicit
  | verifyAccumulatorSnapshot
  | proveIdentity
  | scanBlock
  | verifyChainLink
  | verifyTxInPage
  | validateClaim
  | proveArbitrary
  | proveClaimInStark
  | vesl (tag : VeslTag)
  deriving DecidableEq, Repr

/-- The cord of a tag. -/
def CauseTag.text : CauseTag → String
  | proveRecursiveGenesis => "prove-recursive-genesis"
  | proveRecursiveTransition => "prove-recursive-transition"
  | verifyStark => "verify-stark"
  | verifyStarkExplicit => "verify-stark-explicit"
  | verifyAccumulatorSnapshot => "verify-accumulator-snapshot"
  | proveIdentity => "prove-identity"
  | scanBlock => "scan-block"
  | verifyChainLink => "verify-chain-link"
  | verifyTxInPage => "verify-tx-in-page"
  | validateClaim => "validate-claim"
  | proveArbitrary => "prove-arbitrary"
  | proveClaimInStark => "prove-claim-in-stark"
  | vesl .register => "vesl-register"
  | vesl .verify => "vesl-verify"
  | vesl .settle => "vesl-settle"

/-- The tags in the order of the mold. -/
def CauseTag.all : List CauseTag :=
  [.proveRecursiveGenesis, .proveRecursiveTransition, .verifyStark, .verifyStarkExplicit,
    .verifyAccumulatorSnapshot, .proveIdentity, .scanBlock, .verifyChainLink, .verifyTxInPage,
    .validateClaim, .proveArbitrary, .proveClaimInStark, .vesl .register, .vesl .verify,
    .vesl .settle]

/-- The tag that an atom is. -/
def CauseTag.ofAtom (t : Nat) : Option CauseTag := CauseTag.all.find? fun g => cord g.text = t

/-- The mold `anchor-header`. -/
def clamAnchorHeader : Noun → Option AnchorHeader
  | .cell (.atom digest) (.cell (.atom height) (.atom parent)) => some ⟨digest, height, parent⟩
  | _ => none

/-- The mold `nns-raw-tx-witness`. -/
def clamWitness : Noun → Option NnsRawTxWitness
  | .cell (.atom txId) (.cell (.atom spenderPkh) (.cell (.atom amount) (.atom lockRoot))) =>
    some ⟨txId, spenderPkh, amount, lockRoot⟩
  | _ => none

/-- The mold `nns-claim`. -/
def clamClaim : Noun → Option NnsClaim
  | .cell (.atom name) (.cell (.atom owner) (.cell (.atom fee) (.cell (.atom txHash) w))) => do
    let witness ← clamWitness w
    some ⟨name, owner, fee, txHash, witness⟩
  | _ => none

variable {Acc Vesl : Type} (env : Env Acc Vesl)

/-- The mold of the body of a cause. -/
def clamBody : CauseTag → Noun → Option Cause
  | .proveRecursiveGenesis, .atom 0 => some .proveRecursiveGenesis
  | .proveRecursiveTransition, .cell (.atom proof) (.cell (.atom subject) (.cell (.atom formula)
      (.cell (.atom digest) (.cell ids (.cell claims blockProof))))) => do
    let ids ← clamList clamAtom ids
    let claims ← clamList clamClaim claims
    some (.proveRecursiveTransition ⟨proof, subject, formula, digest, ids, claims, blockProof⟩)
  | .verifyStark, blob => some (.verifyStark blob)
  | .verifyStarkExplicit, .cell blob (.cell subject formula) =>
    some (.verifyStarkExplicit blob subject formula)
  | .verifyAccumulatorSnapshot, .cell (.atom expectedRoot) (.cell (.atom accJam) (.cell (.atom name)
      (.cell (.atom owner) (.cell (.atom txHash) (.cell (.atom height) (.atom digest)))))) =>
    some (.verifyAccumulatorSnapshot ⟨expectedRoot, accJam, ⟨name, owner, txHash, height, digest⟩⟩)
  | .proveIdentity, .atom 0 => some .proveIdentity
  | .scanBlock, .cell (.atom parent) (.cell (.atom height) (.cell (.atom digest)
      (.cell ids claims))) => do
    let ids ← clamList clamAtom ids
    let claims ← clamList clamClaim claims
    some (.scanBlock ⟨parent, height, digest, ids, claims⟩)
  | .verifyChainLink, .cell (.atom digest) (.cell headers (.atom tip)) => do
    let headers ← clamList clamAnchorHeader headers
    some (.verifyChainLink digest headers tip)
  | .verifyTxInPage, .cell (.atom digest) (.cell ids (.atom txId)) => do
    let ids ← clamList clamAtom ids
    some (.verifyTxInPage digest ids txId)
  | .validateClaim, .cell (.atom name) (.cell (.atom owner) (.cell (.atom fee) (.cell (.atom txHash)
      (.cell (.atom claimDigest) (.cell headers (.cell (.atom pageDigest) (.cell ids
      (.cell (.atom tip) (.cell (.atom tipHeight) w))))))))) => do
    let headers ← clamList clamAnchorHeader headers
    let ids ← clamList clamAtom ids
    let witness ← clamWitness w
    some (.validateClaim ⟨name, owner, fee, txHash, claimDigest, headers, ⟨pageDigest, ids⟩, tip,
      tipHeight, witness⟩)
  | .proveArbitrary, .cell (.atom subject) (.atom formula) => some (.proveArbitrary subject formula)
  | .proveClaimInStark, .cell (.atom name) (.cell (.atom owner) (.cell (.atom fee)
      (.cell (.atom txHash) (.cell (.atom claimDigest) (.cell headers (.cell (.atom pageDigest)
      (.cell ids (.cell (.atom tip) (.atom tipHeight))))))))) => do
    let headers ← clamList clamAnchorHeader headers
    let ids ← clamList clamAtom ids
    some (.proveClaimInStark ⟨name, owner, fee, txHash, claimDigest, headers, pageDigest, ids, tip,
      tipHeight⟩)
  | .vesl tag, body => if env.clamVesl tag body then some (.vesl tag body) else none
  | _, _ => none

/-- `((soft cause) n)`. -/
def softCause : Noun → Option Cause
  | .cell (.atom t) body => do
    let tag ← CauseTag.ofAtom t
    clamBody env tag body
  | _ => none

/-! ## The reserved row -/

/-- `+nns-genesis-tld-name`: the reserved name. -/
def nnsGenesisTldName : Nat := cord "nock"

/-- `+genesis-tld-entry`: the row of the reserved name. -/
def genesisTldEntry : NnsAccumulatorEntry :=
  ⟨nnsGenesisTldName, cord "nock", 1, nnsGenesisHeight, 0⟩

/-- `+ensure-genesis-tld`: inserts the reserved row where it is absent. -/
def ensureGenesisTld (acc : Acc) : Eval Acc := do
  if ← has env acc nnsGenesisTldName then pure acc
  else insert env acc nnsGenesisTldName genesisTldEntry

/-! ## The settlement gate -/

/-- A leaf of a settlement batch. -/
structure GateLeaf where
  name : Nat
  owner : Nat
  txHash : Nat
  proof : List (Nat × Bool)
  deriving DecidableEq, Repr

/-- The mold of a node of a Merkle proof. -/
def clamProofNode : Noun → Option (Nat × Bool)
  | .cell (.atom hash) side => do
    let side ← clamLoob side
    some (hash, side)
  | _ => none

/-- The mold of a leaf of `+nns-gate`, with its path. -/
def clamGateLeaf : Noun → Option GateLeaf
  | .cell (.atom name) (.cell (.atom owner) (.cell (.atom txHash) proof)) => do
    let proof ← clamList clamProofNode proof
    some ⟨name, owner, txHash, proof⟩
  | _ => none

/-- The loop of `+nns-gate`. -/
def nnsGate.loop (expectedRoot : Nat) (seenNames seenTxHashes : Finset Nat) :
    List GateLeaf → Eval Bool
  | [] => pure true
  | i :: t => do
    let chunk := env.jam (Noun.tuple (.atom i.name) [.atom i.owner, .atom i.txHash])
    if !(← isValidName i.name) then return false
    if i.name ∈ seenNames then return false
    if i.txHash ∈ seenTxHashes then return false
    if !(← env.verifyChunk chunk i.proof expectedRoot) then return false
    nnsGate.loop expectedRoot (Insert.insert i.name seenNames)
      (Insert.insert i.txHash seenTxHashes) t

/-- `+nns-gate`: every leaf has a valid name and is under the root, and no two of them share a name or
a transaction. -/
def nnsGate (data : Noun) (expectedRoot : Nat) : Eval Bool := do
  let leaves ← orCrash (clamList clamGateLeaf data)
  nnsGate.loop env expectedRoot ∅ ∅ leaves

/-! ## The arms of `+poke`

An arm returns its effects and the next state.
-/

/-- The scan cursor is still unset. -/
def State.boot (s : State Acc Vesl) : Bool := s.lastProvedHeight = 0 && s.lastProvedDigest = 0

/-- The height that a block must have. -/
def State.wantHeight (s : State Acc Vesl) : Nat :=
  if s.boot then max (s.lastProvedHeight + 1) nnsGenesisHeight else s.lastProvedHeight + 1

/-- The accumulator that a block is folded into: at boot, with the reserved row. -/
def seedAccumulator (s : State Acc Vesl) : Eval Acc :=
  if s.boot then ensureGenesisTld env s.accumulator else pure s.accumulator

/-- `%scan-block`. -/
def scanBlock (s : State Acc Vesl) (c : ScanBlock) : Eval (List Effect × State Acc Vesl) := do
  if !(s.boot || c.parent = s.lastProvedDigest) then
    return ([.scanBlockError .parentMismatch], s)
  let seeded ← seedAccumulator env s
  -- from here on the state holds the seeded accumulator, also when the block is rejected
  let t := { s with accumulator := seeded }
  if c.height ≠ s.wantHeight then
    return ([.scanBlockError .heightNotSuccessor], t)
  match ← mule (claimScanner env seeded c.page c.height c.claims) with
  | .error _ => return ([.scanBlockError .claimScannerTrap], t)
  | .ok newAcc =>
    match ← mule (rootAtom env newAcc) with
    | .error _ => return ([.scanBlockError .accumulatorRootTrap], t)
    | .ok accRoot =>
      return ([.scanBlockDone c.height c.pageDigest accRoot],
        { t with
          accumulator := newAcc
          lastProvedHeight := c.height
          lastProvedDigest := c.pageDigest })

/-- `%prove-identity`: proves that a subject is itself, and verifies the proof. -/
def proveIdentity (s : State Acc Vesl) : Eval (List Effect × State Acc Vesl) := do
  let subj := .atom 42
  let form := .cell (.atom 0) (.atom 1)
  match ← mule (env.proveComputation subj form 1 1) with
  | .ok (.ok prf) =>
    let ok ← env.verify prf subj form
    return ([.proveIdentityResult ok], s)
  | _ => return ([.proveIdentityResult false], s)

/-- `%verify-stark`: a proof of the pair that was proved last. -/
def verifyStark (s : State Acc Vesl) (blob : Noun) : Eval (List Effect × State Acc Vesl) := do
  let .atom jammy := blob | return ([.verifyStarkError .blobNotAtom], s)
  match ← mule (env.cue jammy) with
  | .error _ => return ([.verifyStarkError .badJam], s)
  | .ok cued =>
    let proof ← orCrash (env.clamProof cued)
    match s.lastProved with
    | none => return ([.verifyStarkError .noCachedSf], s)
    | some (subject, formula) =>
      let ok ← env.verify proof subject formula
      return ([.verifyStarkResult ok], s)

/-- `%verify-stark-explicit`: a proof of a pair that is given. -/
def verifyStarkExplicit (s : State Acc Vesl) (blob subjectJam formulaJam : Noun) :
    Eval (List Effect × State Acc Vesl) := do
  let .atom jammy := blob | return ([.verifyStarkError .blobNotAtom], s)
  let .atom subjectJam := subjectJam | return ([.verifyStarkError .subjectJamNotAtom], s)
  let .atom formulaJam := formulaJam | return ([.verifyStarkError .formulaJamNotAtom], s)
  match ← mule (env.cue jammy) with
  | .error _ => return ([.verifyStarkError .badJam], s)
  | .ok cued =>
    let proof ← orCrash (env.clamProof cued)
    match ← mule (env.cue subjectJam) with
    | .error _ => return ([.verifyStarkError .badSubjectJam], s)
    | .ok subject =>
      match ← mule (env.cue formulaJam) with
      | .error _ => return ([.verifyStarkError .badFormulaJam], s)
      | .ok formula =>
        let ok ← env.verify proof subject formula
        return ([.verifyStarkResult ok], s)

/-- `%verify-accumulator-snapshot`: the accumulator of the jam has the root, and the row. -/
def verifyAccumulatorSnapshot (s : State Acc Vesl) (v : VerifySnapshot) :
    Eval (List Effect × State Acc Vesl) := do
  match ← mule (env.cue v.accJam) with
  | .error _ => return ([.accumulatorSnapshotVerifyError], s)
  | .ok cued =>
    let acc ← orCrash (env.clamAccumulator cued)
    if (← rootAtom env acc) ≠ v.expectedRoot then
      return ([.accumulatorSnapshotVerifyResult false], s)
    let got ← get env acc v.entry.name
    return ([.accumulatorSnapshotVerifyResult (got = some v.entry)], s)

/-- `%validate-claim`: the validator, outside of `+mule`. -/
def validateClaim (s : State Acc Vesl) (bundle : ClaimBundle) :
    Eval (List Effect × State Acc Vesl) := do
  match ← validateClaimBundle bundle with
  | none => return ([.validateClaimOk], s)
  | some e => return ([.validateClaimError e], s)

/-- `+stark-bind`: the root and the height that a proof is bound to. -/
def starkBind (s : State Acc Vesl) : Eval (Nat × Nat) := do
  let acc ← rootAtom env s.accumulator
  pure (acc, s.lastProvedHeight)

/-- `prove-computation:vp` under `+mule`, bound to `+stark-bind`. Its failure is the noun that
`%prove-failed` reports, from the trap or from the prover. -/
def attemptProof (s : State Acc Vesl) (subj form : Noun) : Eval (Except Noun Noun) := do
  let (br, bh) ← starkBind env s
  match ← mule (env.proveComputation subj form br bh) with
  | .error trace => return .error trace
  | .ok pr => return pr

/-- `%prove-arbitrary`: proves a jammed pair, whatever it is, and keeps the pair. -/
def proveArbitrary (s : State Acc Vesl) (subjectJam formulaJam : Nat) :
    Eval (List Effect × State Acc Vesl) := do
  match ← mule (env.cue subjectJam) with
  | .error trace => return ([.proveFailed (env.jam trace)], s)
  | .ok subj =>
    match ← mule (env.cue formulaJam) with
    | .error trace => return ([.proveFailed (env.jam trace)], s)
    | .ok form =>
      match ← attemptProof env s subj form with
      | .error reason => return ([.proveFailed (env.jam reason)], s)
      | .ok proof =>
        let product ← nock env.fuel subj form
        return ([.arbitraryProof product proof], { s with lastProved := some (subj, form) })

/-- A header as a noun. -/
def AnchorHeader.noun (h : AnchorHeader) : Noun :=
  Noun.tuple (.atom h.digest) [.atom h.height, .atom h.parent]

/-- A linear bundle as a noun. -/
def ClaimBundleLinear.noun (b : ClaimBundleLinear) : Noun :=
  Noun.tuple (.atom b.name) [.atom b.owner, .atom b.fee, .atom b.txHash, .atom b.claimBlockDigest,
    Noun.list (b.anchorHeaders.map AnchorHeader.noun), .atom b.pageDigest,
    Noun.list (b.pageTxIds.map .atom), .atom b.anchoredTip, .atom b.anchoredTipHeight]

/-- `+build-validator-trace-inputs`: the bundle beside the core of the predicates, and the formula
that calls the validator on it. -/
def buildValidatorTraceInputs (bundle : ClaimBundleLinear) : Noun × Noun :=
  (.cell bundle.noun env.npCore,
    Noun.tuple (.atom 9) [.atom 2, .atom 10, Noun.tuple (.atom 6) [.atom 0, .atom 2], .atom 9,
      .atom env.validatorArmAxis, .atom 0, .atom 3])

/-- `%prove-claim-in-stark`: a proof of the run of the linear validator. -/
def proveClaimInStark (s : State Acc Vesl) (bundle : ClaimBundleLinear) :
    Eval (List Effect × State Acc Vesl) := do
  let (subj, form) := buildValidatorTraceInputs env bundle
  match ← mule (nock env.fuel subj form) with
  | .error trace => return ([.proveFailed (env.jam trace)], s)
  | .ok _ =>
    match ← attemptProof env s subj form with
    | .error reason => return ([.proveFailed (env.jam reason)], s)
    | .ok proof =>
      let product ← nock env.fuel subj form
      return ([.claimInStarkProof product proof], { s with lastProved := some (subj, form) })

/-- The dry run of a recursive proof: whether the trace formula succeeds on its subject. -/
def dryRun (subj form : Noun) : Eval Bool := do
  match ← mule (nock env.fuel subj form) with
  | .error _ => return false
  | .ok product => return traceSucceeded product

/-- `%prove-recursive-genesis`. -/
def proveRecursiveGenesis (s : State Acc Vesl) : Eval (List Effect × State Acc Vesl) := do
  let seeded ← ensureGenesisTld env s.accumulator
  -- the seeded accumulator stays in the state when the prover fails
  let t := { s with accumulator := seeded }
  let (subj, form) := buildGenesisRecursiveInputs nnsGenesisHeight 0
  let dryOk ← dryRun env subj form
  match ← attemptProof env t subj form with
  | .error reason => return ([.genesisRecursiveDryRunOk dryOk, .proveFailed (env.jam reason)], t)
  | .ok proof =>
    return ([.genesisRecursiveDryRunOk dryOk, .genesisRecursiveProof proof],
      { t with lastProved := some (subj, form), recursiveProof := some (proof, subj, form) })

/-- A noun of the previous proof: cued from its jam, or taken from the state when the jam is `0`. -/
def previousNoun (jammed : Nat) (stored : Option Noun) : Eval Noun :=
  if jammed = 0 then orCrash stored
  else do
    match ← mule (env.cue jammed) with
    | .error _ => crash
    | .ok n => pure n

/-- `%prove-recursive-transition`. -/
def proveRecursiveTransition (s : State Acc Vesl) (p : ProveTransition) :
    Eval (List Effect × State Acc Vesl) := do
  let prevProof ← previousNoun env p.prevProofJam (s.recursiveProof.map fun rp => rp.1)
  -- the builder takes the previous subject and formula and does not use them
  let _prevSubj ← previousNoun env p.prevSubjectJam (s.recursiveProof.map fun rp => rp.2.1)
  let _prevForm ← previousNoun env p.prevFormulaJam (s.recursiveProof.map fun rp => rp.2.2)
  let prevH := if s.lastProvedHeight > 0 then s.lastProvedHeight else nnsGenesisHeight
  let (subj, form) ← buildRecursiveTransitionInputs env prevProof prevH s.accumulator
    ⟨p.pageDigest, p.pageTxIds⟩ p.claims p.blockProof p.pageDigest
  let dryOk ← dryRun env subj form
  match ← attemptProof env s subj form with
  | .error reason => return ([.recursiveTransitionDryRunOk dryOk, .proveFailed (env.jam reason)], s)
  | .ok proof =>
    return ([.recursiveTransitionDryRunOk dryOk, .recursiveTransitionProof proof],
      { s with lastProved := some (subj, form), recursiveProof := some (proof, subj, form) })

/-- The three graft causes. -/
def veslArm (s : State Acc Vesl) (tag : VeslTag) (body : Noun) :
    Eval (List Effect × State Acc Vesl) := do
  let (efx, vesl) ← env.veslPoke s.vesl tag body (nnsGate env)
  return (efx.map .vesl, { s with vesl := vesl })

/-- The dispatch of `+poke` on a cause. -/
def pokeCause (s : State Acc Vesl) : Cause → Eval (List Effect × State Acc Vesl)
  | .scanBlock c => scanBlock env s c
  | .proveIdentity => proveIdentity env s
  | .verifyStark blob => verifyStark env s blob
  | .verifyStarkExplicit blob subjectJam formulaJam =>
    verifyStarkExplicit env s blob subjectJam formulaJam
  | .verifyAccumulatorSnapshot v => verifyAccumulatorSnapshot env s v
  | .verifyChainLink claimDigest headers anchoredTip =>
    .ok ([.chainLinkResult (chainLinksTo claimDigest headers anchoredTip)], s)
  | .verifyTxInPage digest txIds claimedTxId =>
    .ok ([.txInPageResult (hasTxInPage ⟨digest, txIds⟩ claimedTxId)], s)
  | .validateClaim bundle => validateClaim s bundle
  | .proveArbitrary subjectJam formulaJam => proveArbitrary env s subjectJam formulaJam
  | .proveClaimInStark bundle => proveClaimInStark env s bundle
  | .proveRecursiveGenesis => proveRecursiveGenesis env s
  | .proveRecursiveTransition p => proveRecursiveTransition env s p
  | .vesl tag body => veslArm env s tag body

/-- `+poke`: a noun that is no cause is answered, and changes nothing. -/
def poke (s : State Acc Vesl) (input : Noun) : Eval (List Effect × State Acc Vesl) :=
  match softCause env input with
  | none => .ok ([.invalidCause], s)
  | some cause => pokeCause env s cause

/-! ## Peeks -/

/-- `/accumulator/<name>`. -/
def peekAccumulator (s : State Acc Vesl) (name : Nat) : Eval (Option NnsAccumulatorEntry) :=
  get env s.accumulator name

/-- `/scan-state`: `[height digest root size]`. -/
def peekScanState (s : State Acc Vesl) : Eval Noun := do
  let acc ← rootAtom env s.accumulator
  pure (Noun.tuple (.atom s.lastProvedHeight)
    [.atom s.lastProvedDigest, .atom acc, .atom (size env s.accumulator)])

/-! ## Runs -/

/-- The fresh kernel. -/
def fresh : State Acc Vesl where
  accumulator := env.zBy.nul
  lastProvedHeight := 0
  lastProvedDigest := 0
  vesl := env.veslBunt
  lastProved := none
  recursiveProof := none

/-- The block that a poke made the kernel accept: one for which it emitted `%scan-block-done`. -/
def acceptedBlock (s : State Acc Vesl) (input : Noun) : Option ScanBlock :=
  match softCause env input, poke env s input with
  | some (.scanBlock c), .ok ([.scanBlockDone _ _ _], _) => some c
  | _, _ => none

/-- The state after a poke. An event that crashes, or that the machine gives up on, is dropped. -/
def nextState (s : State Acc Vesl) (input : Noun) : State Acc Vesl :=
  match poke env s input with
  | .ok (_, t) => t
  | .error _ => s

/-- One poke of a run, with the block that it made the kernel accept. -/
def step (s : State Acc Vesl) (input : Noun) : State Acc Vesl × Option ScanBlock :=
  (nextState env s input, acceptedBlock env s input)

/-- The state after a run of pokes on a fresh kernel. -/
def runState (inputs : List Noun) : State Acc Vesl := final (step env) (fresh env) inputs

/-- The blocks that a run of pokes on a fresh kernel accepted, in order. -/
def runBlocks (inputs : List Noun) : List ScanBlock := history (step env) (fresh env) inputs

end NnsVerified.Kernel
