import NnsVerified.Hull.Crates

/-!
# `kernel.rs`

What the hull sends to the kernel and reads back: the pokes, the paths and the answers of peeks, and
the effects of a poke.
-/

namespace NnsVerified.Hull

open NnsVerified.Hoon NnsVerified.Library

/-- `ClaimWitness`: what the hull read off the transaction that pays for a claim. -/
structure ClaimWitness where
  txId : List UInt8
  spenderPkh : List UInt8
  treasuryAmount : UInt64
  outputLockRoot : String
  deriving DecidableEq, Repr

/-- `ClaimCandidate`: one claim extracted from a block. -/
structure ClaimCandidate where
  name : String
  owner : String
  fee : UInt64
  txHash : List UInt8
  witness : ClaimWitness
  deriving DecidableEq, Repr

/-- `AnchorHeader`: a header between the block of a claim and the anchored tip. -/
structure AnchorHeader where
  digest : List UInt8
  height : UInt64
  parent : List UInt8
  deriving DecidableEq, Repr

/-- `ClaimBundle`: what the validator of the kernel checks of one claim. -/
structure ClaimBundle where
  name : String
  owner : String
  fee : UInt64
  txHash : List UInt8
  claimBlockDigest : List UInt8
  anchorHeaders : List AnchorHeader
  pageDigest : List UInt8
  pageTxIds : List (List UInt8)
  anchoredTip : List UInt8
  anchoredTipHeight : UInt64
  witness : ClaimWitness
  deriving DecidableEq, Repr

/-- `ScanState`: the scan cursor of the kernel, with its accumulator root and size. -/
structure ScanState where
  lastProvedHeight : UInt64
  lastProvedDigest : List UInt8
  accumulatorRoot : List UInt8
  accumulatorSize : UInt64
  deriving DecidableEq, Repr

/-- `ScanBlockDone`: a successful `%scan-block`. -/
structure ScanBlockDone where
  height : UInt64
  digest : List UInt8
  accumulatorRoot : List UInt8
  deriving DecidableEq, Repr

/-- `AccumulatorEntry`: a row of the registry. -/
structure AccumulatorEntry where
  name : String
  owner : String
  txHash : List UInt8
  claimHeight : UInt64
  blockDigest : List UInt8
  deriving DecidableEq, Repr

variable {H Z L : Type} (c : Crates H Z L)

/-! ## Pokes -/

/-- The claim of a `%scan-block` poke. -/
def claimNoun (p : ClaimCandidate) : Noun :=
  let witness := Noun.tuple (c.makeAtomIn p.witness.txId) [c.makeAtomIn p.witness.spenderPkh,
    c.atomFromU64 p.witness.treasuryAmount, c.makeCordIn p.witness.outputLockRoot]
  Noun.tuple (c.makeCordIn p.name) [c.makeCordIn p.owner, c.atomFromU64 p.fee,
    c.makeAtomIn p.txHash, witness]

/-- `build_scan_block_poke`: a block with its transaction ids and the claims found in it. -/
def buildScanBlockPoke (parent : List UInt8) (height : UInt64) (pageDigest : List UInt8)
    (pageTxIds : List (List UInt8)) (claims : List ClaimCandidate) : Noun :=
  let txIdsList := pageTxIds.foldr (fun id rest => .cell (c.makeAtomIn id) rest) (.atom 0)
  let claimsList := claims.foldr (fun p rest => .cell (claimNoun c p) rest) (.atom 0)
  Noun.tuple (c.makeTagIn "scan-block") [c.makeAtomIn parent, c.atomFromU64 height,
    c.makeAtomIn pageDigest, txIdsList, claimsList]

/-- `build_prove_recursive_genesis_poke`: the tag alone. -/
def buildProveRecursiveGenesisPoke : Noun := .cell (c.makeTagIn "prove-recursive-genesis") (.atom 0)

/-- `build_prove_recursive_transition_poke`, after its assertions: the jams of the previous proof,
and the block that it is to be extended by. -/
def buildProveRecursiveTransitionPoke (prevProofJam prevSubjectJam prevFormulaJam : List UInt8)
    (pageDigest : List UInt8) (pageTxIds : List (List UInt8)) (claims : List ClaimCandidate)
    (blockProof : List UInt8) : Noun :=
  let txIdsList := pageTxIds.foldr (fun id rest => .cell (c.makeAtomIn id) rest) (.atom 0)
  let claimsList := claims.foldr (fun p rest => .cell (claimNoun c p) rest) (.atom 0)
  Noun.tuple (c.makeTagIn "prove-recursive-transition") [c.makeAtomIn prevProofJam,
    c.makeAtomIn prevSubjectJam, c.makeAtomIn prevFormulaJam, c.makeAtomIn pageDigest, txIdsList,
    claimsList, c.makeAtomIn blockProof]

/-- `build_prove_recursive_transition_poke` with its assertions, on the ids of the claims. -/
def assertedProveRecursiveTransitionPoke (prevProofJam prevSubjectJam prevFormulaJam : List UInt8)
    (pageDigest : List UInt8) (pageTxIds : List (List UInt8)) (claims : List ClaimCandidate)
    (blockProof : List UInt8) : Except Failure Noun :=
  if claims.all fun p => p.txHash.length = 40 && p.witness.txId.length = 40 then
    .ok (buildProveRecursiveTransitionPoke c prevProofJam prevSubjectJam prevFormulaJam pageDigest
      pageTxIds claims blockProof)
  else .error .panic

/-- `build_validate_claim_poke`: a bundle with the fields of its page and of its witness in line. -/
def buildValidateClaimPoke (bundle : ClaimBundle) : Noun :=
  let headersList := bundle.anchorHeaders.foldr
    (fun h rest => .cell (Noun.tuple (c.makeAtomIn h.digest)
      [c.atomFromU64 h.height, c.makeAtomIn h.parent]) rest) (.atom 0)
  let txIdsList := bundle.pageTxIds.foldr (fun id rest => .cell (c.makeAtomIn id) rest) (.atom 0)
  Noun.tuple (c.makeTagIn "validate-claim") [c.makeCordIn bundle.name, c.makeCordIn bundle.owner,
    c.atomFromU64 bundle.fee, c.makeAtomIn bundle.txHash, c.makeAtomIn bundle.claimBlockDigest,
    headersList, c.makeAtomIn bundle.pageDigest, txIdsList, c.makeAtomIn bundle.anchoredTip,
    c.atomFromU64 bundle.anchoredTipHeight, c.makeAtomIn bundle.witness.txId,
    c.makeAtomIn bundle.witness.spenderPkh, c.atomFromU64 bundle.witness.treasuryAmount,
    c.makeCordIn bundle.witness.outputLockRoot]

/-- `build_verify_accumulator_snapshot_poke`: a root, the jam of an accumulator that should have it,
and a row that should be in it. -/
def buildVerifyAccumulatorSnapshotPoke (expectedRoot accJam : List UInt8) (name owner : String)
    (txHash : List UInt8) (claimHeight : UInt64) (blockDigest : List UInt8) : Noun :=
  Noun.tuple (c.makeTagIn "verify-accumulator-snapshot") [c.makeAtomIn expectedRoot,
    c.makeAtomIn accJam, c.makeCordIn name, c.makeCordIn owner, c.makeAtomIn txHash,
    c.atomFromU64 claimHeight, c.makeAtomIn blockDigest]

/-- `build_verify_stark_explicit_poke`: the jams of a proof, its subject and its formula. -/
def buildVerifyStarkExplicitPoke (proofJam subjectJam formulaJam : List UInt8) : Noun :=
  Noun.tuple (c.makeTagIn "verify-stark-explicit") [c.makeAtomIn proofJam, c.makeAtomIn subjectJam,
    c.makeAtomIn formulaJam]

/-! ## Peeks -/

/-- `single_tag_peek`: the path of one tag. -/
def singleTagPeek (tagStr : String) : Noun := .cell (c.makeTagIn tagStr) (.atom 0)

/-- The path of a tag and a name. -/
def namePeek (tagStr name : String) : Noun :=
  Noun.tuple (c.makeTagIn tagStr) [c.makeCordIn name, .atom 0]

/-- `build_accumulator_peek`: the row of a name. -/
def buildAccumulatorPeek (name : String) : Noun := namePeek c "accumulator" name

/-- `build_accumulator_proof_peek`: the axis at which the row of a name is. -/
def buildAccumulatorProofPeek (name : String) : Noun := namePeek c "accumulator-proof" name

/-- `build_accumulator_jam_peek`: the jam of the whole accumulator. -/
def buildAccumulatorJamPeek : Noun := singleTagPeek c "accumulator-jam"

/-- `build_scan_state_peek`: the cursor, the root and the size. -/
def buildScanStatePeek : Noun := singleTagPeek c "scan-state"

/-- `build_recursive_proof_peek`: the stored proof with its subject and formula, jammed. -/
def buildRecursiveProofPeek : Noun := singleTagPeek c "recursive-proof"

/-- `peek_unwrap_inner`: the value of a `(unit (unit *))`. -/
def peekUnwrapInner (result : Noun) : Except String (Option Noun) := do
  if isAtom result then throw "peek: kernel did not recognize path"
  let inner ← tail result
  if isAtom inner then return none
  let value ← tail inner
  return some value

/-- `peek_unwrap_some`: as `peek_unwrap_inner`, with an error for an empty unit. -/
def peekUnwrapSome (result : Noun) : Except String Noun := do
  match ← peekUnwrapInner result with
  | some value => pure value
  | none => throw "peek: expected a value, got empty unit"

/-- `decode_accumulator_entry`: the unit of a row; `none` where the kernel has none. -/
def decodeAccumulatorEntry (result : Noun) : Except String (Option AccumulatorEntry) := do
  let inner ← peekUnwrapSome result
  if isAtom inner then return none
  let entry ← tail inner
  let (name, rest) ← (uncons entry).mapError fun _ => "accumulator: entry not a cell"
  let (owner, rest) ← (uncons rest).mapError fun _ => "accumulator: entry tail not a cell"
  let (txHash, rest) ← (uncons rest).mapError fun _ => "accumulator: entry tail2 not a cell"
  let (claimHeight, blockDigest) ← (uncons rest).mapError fun _ =>
    "accumulator: entry tail3 not a cell"
  let name ← asCord c name
  let owner ← asCord c owner
  let txHash ← asNeBytes c txHash
  let claimHeight ← (asU64 c claimHeight).mapError fun _ => "accumulator: claim_height overflows u64"
  let blockDigest ← asNeBytes c blockDigest
  return some { name, owner, txHash, claimHeight, blockDigest }

/-- `decode_accumulator_proof_axis`: the unit of an axis, as bytes. -/
def decodeAccumulatorProofAxis (result : Noun) : Except String (Option (List UInt8)) := do
  let inner ← peekUnwrapSome result
  if isAtom inner then return none
  let axis ← tail inner
  let bytes ← asNeBytes c axis
  return some bytes

/-- `decode_accumulator_root`: the root, as bytes. -/
def decodeAccumulatorRoot (result : Noun) : Except String (List UInt8) := do
  let inner ← peekUnwrapSome result
  asNeBytes c inner

/-- `decode_accumulator_jam`, which reads an atom as the root is read. -/
def decodeAccumulatorJam (result : Noun) : Except String (List UInt8) :=
  decodeAccumulatorRoot c result

/-- `decode_scan_state`: the four fields of the cursor. -/
def decodeScanState (result : Noun) : Except String ScanState := do
  let inner ← peekUnwrapSome result
  let height ← (head inner).mapError fun _ => "scan-state: expected cell"
  let lastProvedHeight ← (asU64 c height).mapError fun _ => "scan-state: height overflows u64"
  let rest ← (tail inner).mapError fun _ => "scan-state: tail not a cell"
  let (digest, rest) ← (uncons rest).mapError fun _ => "scan-state: tail not a cell"
  let (root, size) ← (uncons rest).mapError fun _ => "scan-state: tail2 not a cell"
  let lastProvedDigest ← asNeBytes c digest
  let accumulatorRoot ← asNeBytes c root
  let accumulatorSize ← (asU64 c size).mapError fun _ => "scan-state: size overflows u64"
  return { lastProvedHeight, lastProvedDigest, accumulatorRoot, accumulatorSize }

/-- `decode_recursive_proof`: the jams of the proof, the subject and the formula. -/
def decodeRecursiveProof (result : Noun) :
    Except String (Option (List UInt8 × List UInt8 × List UInt8)) := do
  let some inner ← peekUnwrapInner result | return none
  if isAtom inner then return none
  let (proof, rest) ← (uncons inner).mapError fun _ =>
    "recursive-proof: expected 3-tuple cell [proof [subj form]]"
  let (subject, formula) ← (uncons rest).mapError fun _ => "recursive-proof: tail not a cell"
  let proofJam ← asNeBytes c proof
  let subjectJam ← asNeBytes c subject
  let formulaJam ← asNeBytes c formula
  return some (proofJam, subjectJam, formulaJam)

/-! ## Effects -/

/-- `effect_tag`: the head of an effect, as a text. -/
def effectTag (effect : Noun) : Option String := do
  let tag ← (head effect).toOption
  (asCord c tag).toOption

/-- The tags of the effects that carry an error message. -/
def errorTags : List String :=
  ["claim-error", "primary-error", "batch-error", "anchor-error", "vesl-error"]

/-- `error_message`: the text of an effect with an error tag. -/
def errorMessage (effect : Noun) : Option String := do
  let tag ← effectTag c effect
  if tag ∉ errorTags then none
  let msg ← (tail effect).toOption
  let bytes ← (asNeBytes c msg).toOption
  (fromUtf8 bytes).map trimEndNul

/-- `first_error_message`. -/
def firstErrorMessage (effects : List Noun) : Option String := effects.findSome? (errorMessage c)

/-- The text of an effect with the given tag. -/
def effectText (tag : String) (effect : Noun) : Option String := do
  let tag' ← effectTag c effect
  if tag' ≠ tag then none
  let msg ← (tail effect).toOption
  let bytes ← (asNeBytes c msg).toOption
  (fromUtf8 bytes).map trimEndNul

/-- The loobean of an effect with the given tag. -/
def effectLoob (tag : String) (effect : Noun) : Option Bool := do
  let tag' ← effectTag c effect
  if tag' ≠ tag then none
  let v ← ((tail effect).bind (asU64 c)).toOption
  return v = 0

/-- `verify_stark_result`: the verdict of `%verify-stark-explicit`. -/
def verifyStarkResult (effect : Noun) : Option Bool := effectLoob c "verify-stark-result" effect

/-- `first_verify_stark_result`. -/
def firstVerifyStarkResult (effects : List Noun) : Option Bool :=
  effects.findSome? (verifyStarkResult c)

/-- `verify_stark_error`: why the kernel gave no verdict on a proof. -/
def verifyStarkError (effect : Noun) : Option String := effectText c "verify-stark-error" effect

/-- `first_verify_stark_error`. -/
def firstVerifyStarkError (effects : List Noun) : Option String :=
  effects.findSome? (verifyStarkError c)

/-- `accumulator_snapshot_verify_result`: the verdict on a snapshot and a row. -/
def accumulatorSnapshotVerifyResult (effect : Noun) : Option Bool :=
  effectLoob c "accumulator-snapshot-verify-result" effect

/-- `first_accumulator_snapshot_verify_result`. -/
def firstAccumulatorSnapshotVerifyResult (effects : List Noun) : Option Bool :=
  effects.findSome? (accumulatorSnapshotVerifyResult c)

/-- `accumulator_snapshot_verify_error`: why the kernel gave no verdict on a snapshot. -/
def accumulatorSnapshotVerifyError (effect : Noun) : Option String :=
  effectText c "accumulator-snapshot-verify-error" effect

/-- `first_accumulator_snapshot_verify_error`. -/
def firstAccumulatorSnapshotVerifyError (effects : List Noun) : Option String :=
  effects.findSome? (accumulatorSnapshotVerifyError c)

/-- `scan_block_done`: the new cursor and root of a `%scan-block-done`. -/
def scanBlockDone (effect : Noun) : Option ScanBlockDone := do
  let tag ← effectTag c effect
  if tag ≠ "scan-block-done" then none
  let rest ← (tail effect).toOption
  let height ← ((head rest).bind (asU64 c)).toOption
  let rest ← (tail rest).toOption
  let digest ← ((head rest).bind (asNeBytes c)).toOption
  let accumulatorRoot ← ((tail rest).bind (asNeBytes c)).toOption
  return { height, digest, accumulatorRoot }

/-- `first_scan_block_done`. -/
def firstScanBlockDone (effects : List Noun) : Option ScanBlockDone :=
  effects.findSome? (scanBlockDone c)

/-- `scan_block_error`: the reason of a `%scan-block-error`. -/
def scanBlockError (effect : Noun) : Option String := do
  let tag ← effectTag c effect
  if tag ≠ "scan-block-error" then none
  ((tail effect).bind (asCord c)).toOption

/-- `first_scan_block_error`. -/
def firstScanBlockError (effects : List Noun) : Option String :=
  effects.findSome? (scanBlockError c)

/-- `has_effect`: some effect has the tag. -/
def hasEffect (effects : List Noun) (tag : String) : Bool :=
  (effects.filterMap (effectTag c)).any fun t => t = tag

/-- `format_effect_tags`: the tags of the effects, for diagnostics. -/
def formatEffectTags (effects : List Noun) : String :=
  let tags := effects.filterMap (effectTag c)
  if tags.isEmpty then "(none)" else ", ".intercalate tags

end NnsVerified.Hull
