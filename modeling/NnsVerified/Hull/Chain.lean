import Mathlib.Data.Finset.Insert
import Mathlib.Order.WithBot
import NnsVerified.Hull.Kernel
import NnsVerified.Library.KeyedDrain
import NnsVerified.Library.StableSort

/-!
# `chain.rs`

What the hull does to a block that it fetched: the encodings of Tip5 digests, the order of the
transactions of a block, and the check that a batch of blocks is linked to the scan cursor.
-/

namespace NnsVerified.Hull

open NnsVerified.Library

/-! ## Digests -/

/-- The five little-endian `u64` of a buffer of 40 bytes. -/
def limbs (bs : List UInt8) : Vector UInt64 5 :=
  let limb i := fromLeBytes ((bs.drop (i * 8)).take 8)
  #v[limb 0, limb 1, limb 2, limb 3, limb 4]

/-- The little-endian bytes of five `u64`. -/
def limbBytes (l : Vector UInt64 5) : List UInt8 := l.toList.flatMap toLeBytes

/-- `common.v1.Belt`. -/
structure PbBelt where
  value : UInt64
  deriving DecidableEq, Repr

/-- `common.v1.Hash`. Every belt is optional in the message. -/
structure PbHash where
  belt1 : Option PbBelt
  belt2 : Option PbBelt
  belt3 : Option PbBelt
  belt4 : Option PbBelt
  belt5 : Option PbBelt
  deriving DecidableEq, Repr

/-- `hash_to_atom_bytes`. A missing belt counts as `0`. -/
def hashToAtomBytes (h : PbHash) : List UInt8 :=
  [h.belt1, h.belt2, h.belt3, h.belt4, h.belt5].flatMap fun b => toLeBytes ((b.map (·.value)).getD 0)

/-- `atom_bytes_to_hash`: forty bytes as the five belts of a message. -/
def atomBytesToHash (bytes : List UInt8) : Option PbHash :=
  if bytes.length ≠ 40 then none
  else
    let belts := limbs bytes
    some ⟨some ⟨belts[0]⟩, some ⟨belts[1]⟩, some ⟨belts[2]⟩, some ⟨belts[3]⟩, some ⟨belts[4]⟩⟩

/-- `tip5_atom_semantic_eq`: the comparison of two serializations of a digest. -/
def tip5AtomSemanticEq (a b : List UInt8) : Bool := limbs (padTo 40 a) = limbs (padTo 40 b)

/-- `NNS_GENESIS_HEIGHT`. -/
def nnsGenesisHeight : UInt64 := 63000

/-- `scan_cursor_is_genesis_boot`: no block has been scanned. -/
def scanCursorIsGenesisBoot (lastProvedHeight : UInt64) (lastProvedDigest : List UInt8) : Bool :=
  lastProvedHeight = 0 && tip5AtomSemanticEq lastProvedDigest (List.replicate 40 0)

variable {H Z L : Type} (c : Crates H Z L)

/-- `tip5_hash_to_tx_atom_bytes`: the five limbs, eight bytes each. -/
def tip5HashToTxAtomBytes (h : H) : List UInt8 := limbBytes (c.toArray h)

/-- `base58_hash_to_atom_bytes`. -/
def base58HashToAtomBytes (value : String) : Except String (List UInt8) := do
  let hash ← (c.fromBase58 value).mapError fun e =>
    s!"invalid base58 Tip5 hash {c.debug value}: {e}"
  return limbBytes (c.toArray hash)

/-- `tx_atom_bytes_to_tip5_hash`. -/
def txAtomBytesToTip5Hash (bytes : List UInt8) : Except String H := do
  if bytes.length ≠ 40 then
    throw s!"tx-id atom must be 40 bytes (5×u64 LE), got {bytes.length}"
  return c.fromLimbs (limbs bytes)

/-! ## The order of the transactions of a block -/

/-- The duplicate check of `canonical_z_set_tx_order`, after the ids `seen`. -/
def canonicalZSetTxOrder.checkSeen (seen : Finset (List UInt8)) :
    List (List UInt8) → Except String Unit
  | [] => .ok ()
  | id :: ids =>
    if id ∈ seen then .error s!"duplicate tx-id in block page_tx_ids list ({id.length} bytes)"
    else canonicalZSetTxOrder.checkSeen (insert id seen) ids

/-- `canonical_z_set_tx_order`: the ids as a z-set of them is listed; an error if one repeats. -/
def canonicalZSetTxOrder (pageTxIds : List (List UInt8)) : Except String (List (List UInt8)) := do
  if pageTxIds.isEmpty then return []
  -- stub ids of tests keep their order, repeated or not
  if pageTxIds.any fun id => id.length ≠ 40 then return pageTxIds
  canonicalZSetTxOrder.checkSeen ∅ pageTxIds
  let hashes ← pageTxIds.mapM (txAtomBytesToTip5Hash c)
  let set ← (c.tryFromItems hashes).mapError fun e => s!"z-set tx-id build failed: {e}"
  return (c.intoItems set).map (tip5HashToTxAtomBytes c)

/-- A byte as two digits, the format `{:02x}`. -/
def hexByte (b : UInt8) : String :=
  String.ofList [Nat.digitChar (b.toNat / 16), Nat.digitChar (b.toNat % 16)]

/-- `hex_prefix`: the first bytes, with an ellipsis after them where there are more. -/
def hexPrefix (bytes : List UInt8) (n : Nat) : String :=
  let shown := min n bytes.length
  let hex := String.join ((bytes.take shown).map hexByte)
  if bytes.length > shown then s!"{hex}…" else hex

/-- The transactions of a block by their ids: `HashMap<Vec<u8>, TransactionDetails>`. -/
abbrev DetailsById : Type := AList fun _ : List UInt8 => TransactionDetails

/-- The map of `align_transaction_details_with_canonical_order`: of the transactions that decode to
one id, it keeps the last. -/
def detailsById (txDetails : List TransactionDetails) : Except String DetailsById :=
  collect (fun d => base58HashToAtomBytes c d.txId) ∅ txDetails

/-- The loop of `align_transaction_details_with_canonical_order`: take the transactions out of the
map in the order of the ids. -/
def takeDetails (byId : DetailsById) (canonicalTxAtoms : List (List UInt8)) :
    Except String (List TransactionDetails × DetailsById) :=
  drain (fun id =>
    s!"missing TransactionDetails for tx atom {hexPrefix id 8} (align with block tx_ids)")
    byId canonicalTxAtoms

/-- `align_transaction_details_with_canonical_order`: one transaction for each id, and no other. -/
def alignTransactionDetailsWithCanonicalOrder (canonicalTxAtoms : List (List UInt8))
    (txDetails : List TransactionDetails) : Except String (List TransactionDetails) := do
  let byId ← detailsById c txDetails
  let (ordered, rest) ← takeDetails byId canonicalTxAtoms
  if !rest.entries.isEmpty then
    throw s!"extra TransactionDetails not listed in page_tx_ids ({rest.entries.length} stray)"
  return ordered

/-- `align_scan_block_fetch_tx_order`. -/
def alignScanBlockFetchTxOrder (pageTxIds : List (List UInt8))
    (txDetails : List TransactionDetails) :
    Except String (List (List UInt8) × List TransactionDetails) := do
  let canonicalIds ← canonicalZSetTxOrder c pageTxIds
  let details ← alignTransactionDetailsWithCanonicalOrder c canonicalIds txDetails
  return (canonicalIds, details)

/-- The ranks of `sort_claims_by_z_set_tx_order`: of the indices of a repeated id, the last. -/
def txRanks (canonical : List (List UInt8)) : AList fun _ : List UInt8 => Nat :=
  canonical.zipIdx.foldl (fun rank entry => rank.insert entry.1 entry.2) ∅

/-- The sort key of a claim. `⊤` is `usize::MAX`, which no index of a `Vec` reaches. -/
def claimRank (rank : AList fun _ : List UInt8 => Nat) (claim : ClaimCandidate) : WithTop Nat :=
  match rank.lookup claim.witness.txId with
  | some i => WithTop.some i
  | none => ⊤

/-- `sort_claims_by_z_set_tx_order`: the claims in the order of their transactions. -/
def sortClaimsByZSetTxOrder (pageTxIds : List (List UInt8)) (claims : List ClaimCandidate) :
    Except String (List ClaimCandidate) := do
  let canonical ← canonicalZSetTxOrder c pageTxIds
  return sortByKey (claimRank (txRanks canonical)) claims

/-! ## Batches of blocks -/

/-- `ScanBlockFetch`: a block as it was fetched, with its transactions. -/
structure ScanBlockFetch where
  height : UInt64
  pageDigest : List UInt8
  parent : List UInt8
  pageTxIds : List (List UInt8)
  txDetails : List TransactionDetails
  deriving DecidableEq, Repr

/-- The loop of `validate_scan_block_chain`, from index `i` on. -/
def validateScanBlockChain.loop (genesisBoot : Bool) (i : Nat) (exp : List UInt8) :
    List ScanBlockFetch → Except String Unit
  | [] => .ok ()
  | b :: blocks =>
    let skipParentVsCursor := genesisBoot && i = 0
    if !skipParentVsCursor && !tip5AtomSemanticEq b.parent exp then
      .error s!"prefetched scan batch parent mismatch at height {b.height} (RPC skew or fork)"
    else validateScanBlockChain.loop genesisBoot (i + 1) b.pageDigest blocks

/-- `validate_scan_block_chain`: successive heights, and each block the parent of the next. -/
def validateScanBlockChain (lastProvedHeight : UInt64) (lastProvedDigest : List UInt8)
    (blocks : List ScanBlockFetch) : Except String Unit :=
  let genesisBoot := scanCursorIsGenesisBoot lastProvedHeight lastProvedDigest
  validateScanBlockChain.loop genesisBoot 0 lastProvedDigest blocks

end NnsVerified.Hull
