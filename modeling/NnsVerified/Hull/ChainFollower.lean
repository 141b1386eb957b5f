import Mathlib.Data.List.Dedup
import NnsVerified.Hull.Chain
import NnsVerified.Hull.ClaimNote
import NnsVerified.Hull.Kernel
import NnsVerified.Hull.Payment

/-!
# `chain_follower.rs`

The follower of the chain: which heights it plans to scan, and which claims it extracts from the
transactions of a block.
-/

namespace NnsVerified.Hull

open NnsVerified.Hoon NnsVerified.Library

/-! ## Planning -/

/-- `DEFAULT_FINALITY_DEPTH`, in blocks. -/
def defaultFinalityDepth : UInt64 := 10

/-- `nns_genesis_height` of the hull's state: the first height to scan. -/
def scanFirst : UInt64 := max nnsGenesisHeight 1

/-- `next_height` of `scan_once`: the height after the cursor of the kernel. -/
def nextHeight (scanState : ScanState) : UInt64 :=
  if scanCursorIsGenesisBoot scanState.lastProvedHeight scanState.lastProvedDigest then
    max scanFirst (saturatingAdd scanState.lastProvedHeight 1)
  else saturatingAdd scanState.lastProvedHeight 1

/-- The heights that `scan_once` plans to scan, for the cursor of the kernel, the tip of the chain
and the size of a batch. `none` where no block is final that was not scanned before. -/
def planHeights (scanState : ScanState) (currentChainTip batchMax : UInt64) :
    Option (List UInt64) :=
  if currentChainTip ≤ defaultFinalityDepth then none
  else
    let finalizedHeight := saturatingSub currentChainTip defaultFinalityDepth
    let next := nextHeight scanState
    if next > finalizedHeight then none
    else
      let batchEnd := min (saturatingAdd next (saturatingSub batchMax 1)) finalizedHeight
      some (inclusiveRange next batchEnd)

/-! ## Extraction of claims -/

/-- `infer_claim_owner_for_claim`: the owner of the note, or else the only signer, or else, where
nobody signed, the only spent note. -/
def inferClaimOwnerForClaim (details : TransactionDetails) (note : ClaimNoteV1) : Option String :=
  let o := trim note.owner
  if !o.isEmpty then some o
  else
    let signers := (((details.inputs.flatMap fun i => i.signerPubkeyB58).map trim).filter
      fun s => !s.isEmpty).dedup
    match signers with
    | [signer] => some signer
    | _ :: _ :: _ => none
    | [] =>
      let names := ((details.inputs.map fun i => trim i.noteNameB58).filter
        fun s => !s.isEmpty).dedup
      match names with
      | [name] => some name
      | _ => none

variable {H Z L : Type} (c : Crates H Z L) [DecidableEq H]

/-- `claim_witness_from_transaction`: a witness, if the owner signed the transaction, or an input
has its name where no signer is given. -/
def claimWitnessFromTransaction (details : TransactionDetails) (txHash : List UInt8)
    (owner : String) : Option ClaimWitness :=
  let owner := trim owner
  if owner.isEmpty then none
  else
    let signers := details.inputs.flatMap fun i => i.signerPubkeyB58
    let ownerOk :=
      if signers.isEmpty then details.inputs.any fun i => trim i.noteNameB58 = owner
      else owner ∈ signers
    if !ownerOk then none
    else some {
      txId := txHash
      spenderPkh := utf8 owner
      treasuryAmount := sumTreasuryOutputsV1 c details
      outputLockRoot := treasuryLockRootB58 }

/-- The body of the loop of `extract_claims_from_transaction`: the claim of one output. Outputs
without a claim note are skipped, and so are notes that name another transaction, whose owner cannot
be inferred, or whose owner did not spend. -/
def claimOfOutput (details : TransactionDetails) (output : TransactionOutput) :
    Except String (Option ClaimCandidate) :=
  match output.noteData with
  | none => .ok none
  | some noteData =>
    match fromNoteData c noteData with
    | .error _ => .ok none
    | .ok note =>
      let txIdExpected := trim details.txId
      let noteTx := trim note.txHash
      let effectiveTxId := if noteTx.isEmpty then txIdExpected else noteTx
      if effectiveTxId ≠ txIdExpected then .ok none
      else do
        let txHash ← base58HashToAtomBytes c effectiveTxId
        let actualTxHash ← base58HashToAtomBytes c txIdExpected
        match inferClaimOwnerForClaim details note with
        | none => pure none
        | some owner =>
          match claimWitnessFromTransaction c details actualTxHash owner with
          | none => pure none
          | some witness =>
            -- an underpaid claim is extracted all the same, with a warning
            pure (some { name := note.name, owner, fee := feeForName note.name, txHash, witness })

/-- The loop of `extract_claims_from_transaction`. -/
def claimsOfOutputs (details : TransactionDetails) :
    List TransactionOutput → Except String (List ClaimCandidate)
  | [] => .ok []
  | output :: outputs => do
    let claim ← claimOfOutput c details output
    let claims ← claimsOfOutputs details outputs
    return claim.toList ++ claims

/-- `extract_claims_from_transaction`: the claims in the notes of the outputs. -/
def extractClaimsFromTransaction (details : TransactionDetails) :
    Except String (List ClaimCandidate) :=
  claimsOfOutputs c details details.outputs

/-- `extract_claims`: those of all transactions of a block. -/
def extractClaims : List TransactionDetails → Except String (List ClaimCandidate)
  | [] => .ok []
  | tx :: details => do
    let claims ← extractClaimsFromTransaction c tx
    let rest ← extractClaims details
    return claims ++ rest

end NnsVerified.Hull
