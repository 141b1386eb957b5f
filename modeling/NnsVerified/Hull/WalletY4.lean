import NnsVerified.Hull.Hex

/-!
# `wallet_y4.rs`

The bundle that a wallet verifies offline, and the walk along its headers down to a pinned
checkpoint.
-/

namespace NnsVerified.Hull

/-! ## The bundle -/

/-- `CheckpointConfig`: the block that the wallet trusts. -/
structure CheckpointConfig where
  height : UInt64
  digest : List UInt8
  deriving DecidableEq, Repr

/-- `NockHeaderLink`: a header on the way from the cursor down to the checkpoint. -/
structure NockHeaderLink where
  height : UInt64
  digestHex : String
  parentHex : String
  deriving DecidableEq, Repr

/-- `AccumulatorEntryJson`: a row, with its digests in hex. -/
structure AccumulatorEntryJson where
  owner : String
  txHashHex : String
  claimHeight : UInt64
  blockDigestHex : String
  deriving DecidableEq, Repr

/-- `ZInProofNodeJson`: a node of a membership proof, which no verifier reads. -/
structure ZInProofNodeJson where
  hash : String
  side : String
  deriving DecidableEq, Repr

/-- `PathY4LookupBundle`: what a wallet hands to the offline verifier. -/
structure PathY4LookupBundle where
  name : String
  value : Option AccumulatorEntryJson
  lastProvedHeight : UInt64
  lastProvedDigestHex : String
  accumulatorRootHex : String
  recursiveProofHex : Option String
  recursiveSubjectJamHex : Option String
  recursiveFormulaJamHex : Option String
  accumulatorSnapshotJamHex : Option String
  zInProof : Option (List ZInProofNodeJson)
  headersToCheckpoint : List NockHeaderLink
  deriving DecidableEq, Repr

/-! ## The walk -/

variable (overflowChecks : Bool)

/-- The loop of `verify_header_chain_to_checkpoint`, from the header at an index on. -/
def verifyHeaderChainToCheckpoint.loop (checkpoint : CheckpointConfig) :
    Nat → List NockHeaderLink → Except Failure Unit
  | i, header :: next :: rest => do
    let _d ← hexDecodeEven header.digestHex
    let p ← hexDecodeEven header.parentHex
    let dNext ← hexDecodeEven next.digestHex
    if p ≠ dNext then
      .error (.message s!"header chain break at index {i}: parent does not match next digest")
    else do
      let h := header.height
      let hNext := next.height
      let above ← addU64 overflowChecks hNext 1
      if above ≠ h then do
        let expected ← subU64 overflowChecks h 1
        .error (.message
          s!"header height gap at index {i}: expected height {expected}, got {hNext}")
      else verifyHeaderChainToCheckpoint.loop checkpoint (i + 1) (next :: rest)
  | _, [header] => do
    let d ← hexDecodeEven header.digestHex
    let _p ← hexDecodeEven header.parentHex
    if header.height ≠ checkpoint.height then
      .error (.message (s!"terminal header height {header.height} does not match checkpoint " ++
        s!"height {checkpoint.height}"))
    else if d ≠ checkpoint.digest then
      .error (.message "terminal header digest does not match checkpoint digest")
    else .ok ()
  | _, [] => .ok ()

/-- `verify_header_chain_to_checkpoint`: the headers go down from the cursor to the checkpoint, each
to its parent. -/
def verifyHeaderChainToCheckpoint (lastHeight : UInt64) (lastDigest : List UInt8)
    (checkpoint : CheckpointConfig) (headers : List NockHeaderLink) : Except Failure Unit :=
  if lastHeight = checkpoint.height then
    if !headers.isEmpty then
      .error (.message (s!"expected empty headers when last_proved_height ({lastHeight}) equals " ++
        s!"checkpoint height, got {headers.length} headers"))
    else if lastDigest ≠ checkpoint.digest then
      .error (.message "last_proved_digest does not match checkpoint digest at same height")
    else .ok ()
  else if lastHeight < checkpoint.height then
    .error (.message
      s!"last_proved_height {lastHeight} is below checkpoint height {checkpoint.height}")
  else
    match headers with
    | [] => .error (.message
        "headers_to_checkpoint is empty but last_proved_height is above checkpoint height")
    | first :: _ => do
      let firstD ← hexDecodeEven first.digestHex
      if firstD ≠ lastDigest then
        .error (.message "first header digest does not match last_proved_digest")
      else if first.height ≠ lastHeight then
        .error (.message (s!"first header height {first.height} does not match " ++
          s!"last_proved_height {lastHeight}"))
      else verifyHeaderChainToCheckpoint.loop overflowChecks checkpoint 0 headers

end NnsVerified.Hull
