import NnsVerified.Hull.Chain
import NnsVerified.Library.StableSort
import NnsVerified.Library.Workers

/-!
# `chain.rs`: fetching blocks

What the follower asks the node for one batch of blocks. A block is one request for its details and
one task for each of its transactions, a batch is one task for each block; tasks of both kinds wait for
a permit. What the node may answer is a parameter, so a fetch is a worker that makes one step with
each answer.
-/

namespace NnsVerified.Hull

open NnsVerified.Library

/-! ## Answers of the node -/

/-- `BlockDetails`: the fields that a scan reads. -/
structure BlockDetails where
  height : UInt64
  blockId : Option PbHash
  parent : Option PbHash
  txIds : List String
  deriving DecidableEq, Repr

/-- The `result` of a `GetBlockDetailsResponse`. -/
inductive GetBlockDetailsResponse where
  | details (d : BlockDetails)
  | error (message : String)
  | empty
  deriving DecidableEq, Repr

/-- The `result` of a `GetTransactionDetailsResponse`. -/
inductive GetTransactionDetailsResponse where
  | details (d : TransactionDetails)
  | pending
  | error (message : String)
  | empty
  deriving DecidableEq, Repr

/-- What the node may answer. A task asks for its transaction again where the answer was
`Pending`; the answers to its attempts may differ. -/
structure BlockService where
  connect : Except String Unit → Prop
  getBlockDetails : UInt64 → Except String GetBlockDetailsResponse → Prop
  getTransactionDetails : String → Nat → Except String GetTransactionDetailsResponse → Prop

/-- `connect_block_service`. -/
def connectBlockService (answer : Except String Unit) : Except String Unit :=
  answer.mapError fun e => s!"block service connect failed: {e}"

/-- `fetch_block_details_by_height`, on the answers that it gets. -/
def fetchBlockDetailsByHeight (height : UInt64) (connected : Except String Unit)
    (answer : Except String GetBlockDetailsResponse) : Except String BlockDetails := do
  connectBlockService connected
  match ← answer.mapError fun e => s!"block details query failed at height {height}: {e}" with
  | .details d => .ok d
  | .error message => .error s!"block details error at height {height}: {message}"
  | .empty => .error s!"empty block details response at height {height}"

/-- `TxDetailsOutcome`: an answer of the node that is no failure. -/
inductive TxDetailsOutcome where
  | ready (d : TransactionDetails)
  | pending
  deriving DecidableEq, Repr

/-- `fetch_transaction_details_outcome_client`. -/
def fetchTransactionDetailsOutcome (txId : String)
    (answer : Except String GetTransactionDetailsResponse) : Except String TxDetailsOutcome := do
  match ← answer.mapError fun e => s!"transaction details query failed for {txId}: {e}" with
  | .details d => .ok (.ready d)
  | .pending => .ok .pending
  | .error message => .error s!"transaction details error for {txId}: {message}"
  | .empty => .error s!"empty transaction details response for {txId}"

/-! ## Transactions -/

/-- `MAX_ATTEMPTS`: how often the node is asked for one transaction. -/
def maxAttempts : Nat := 24

/-- `INITIAL_DELAY_MS`: the wait before the second attempt. -/
def initialDelayMs : UInt64 := 80

/-- `MAX_DELAY_MS`: no wait is longer. -/
def maxDelayMs : UInt64 := 1500

/-- `MAX_CONCURRENT_TX_FETCHES`. -/
def maxConcurrentTxFetches : Nat := 32

/-- The task of one transaction of a block: about to ask for it, or finished. -/
inductive TxFetch where
  | asking (idx : Nat) (hash : String) (attempt : Nat) (delayMs : UInt64)
  | done (r : Except String (Nat × TransactionDetails))

/-- What a task does with an answer. Before it asks again it sleeps for the delay. -/
def TxFetch.receive (idx : Nat) (hash : String) (attempt : Nat) (delayMs : UInt64)
    (answer : Except String GetTransactionDetailsResponse) : TxFetch :=
  match fetchTransactionDetailsOutcome hash answer with
  | .error e => .done (.error e)
  | .ok (.ready d) => .done (.ok (idx, d))
  | .ok .pending =>
    if attempt ≥ maxAttempts then
      .done (.error (s!"tx {hash} still Pending after {maxAttempts} get_transaction_details " ++
        "attempts; node tx index lags block header or tx left mempool — retry later"))
    else .asking idx hash (attempt + 1) (min (saturatingMul delayMs 3 / 2) maxDelayMs)

/-- A task makes one step with each answer. -/
inductive TxFetch.Step (service : BlockService) : TxFetch → TxFetch → Prop where
  | answered (idx : Nat) {hash : String} {attempt : Nat} (delayMs : UInt64)
      {answer : Except String GetTransactionDetailsResponse}
      (h : service.getTransactionDetails hash attempt answer) :
      Step service (.asking idx hash attempt delayMs) (TxFetch.receive idx hash attempt delayMs answer)

/-- The task of one transaction. -/
def txFetch (service : BlockService) : Worker TxFetch (Except String (Nat × TransactionDetails)) where
  step := TxFetch.Step service
  result
    | .asking .. => none
    | .done r => some r

/-- The tasks of the transactions of a block. -/
abbrev TxPool : Type := Pool TxFetch (Except String (Nat × TransactionDetails))

/-- The tasks of `fetch_block_transaction_details`, before any of them has a permit. -/
def txTasks (txIds : List String) : TxPool :=
  Pool.start maxConcurrentTxFetches (txIds.zipIdx.map fun (hash, idx) =>
    .asking idx hash 1 initialDelayMs)

/-- The end of `fetch_block_transaction_details`. -/
def inBlockOrder (indexed : List (Nat × TransactionDetails)) : List TransactionDetails :=
  (sortByKey Prod.fst indexed).map Prod.snd

/-! ## Blocks -/

variable {H Z L : Type} (c : Crates H Z L)

/-- `tx_ids_from_block_details`. -/
def txIdsFromBlockDetails (details : BlockDetails) : Except String (List (List UInt8)) :=
  details.txIds.mapM (base58HashToAtomBytes c)

/-- What `fetch_scan_block_inputs` reads off the details of a block. -/
structure BlockHeader where
  details : BlockDetails
  pageDigest : List UInt8
  parent : List UInt8
  pageTxIds : List (List UInt8)
  deriving DecidableEq, Repr

/-- The beginning of `fetch_scan_block_inputs`. A height other than the one that was asked for is
only logged. -/
def blockHeader (height : UInt64) (details : BlockDetails) : Except String BlockHeader := do
  let pageDigestAtom ← details.blockId.elim (.error s!"block {height} missing block_id") .ok
  let parentAtom ← details.parent.elim (.error s!"block {height} missing parent") .ok
  let pageTxIds ← txIdsFromBlockDetails c details
  return ⟨details, hashToAtomBytes pageDigestAtom, hashToAtomBytes parentAtom, pageTxIds⟩

/-- The end of `fetch_scan_block_inputs`. -/
def finishBlock (header : BlockHeader) (txDetails : List TransactionDetails) :
    Except String ScanBlockFetch := do
  let (pageTxIds, txDetails) ← alignScanBlockFetchTxOrder c header.pageTxIds txDetails
  return ⟨header.details.height, header.pageDigest, header.parent, pageTxIds, txDetails⟩

/-- `fetch_scan_block_inputs` between its requests. -/
inductive BlockFetch where
  | asking (height : UInt64)
  | connecting (header : BlockHeader)
  | fetching (header : BlockHeader) (tasks : TxPool)
  | done (r : Except String ScanBlockFetch)

/-- What follows the details of a block. Of a block without transactions no more is asked. -/
def BlockFetch.receive (height : UInt64) (details : Except String BlockDetails) : BlockFetch :=
  match details.bind (blockHeader c height) with
  | .error e => .done (.error e)
  | .ok header =>
    if header.details.txIds.isEmpty then .done (finishBlock c header [])
    else .connecting header

/-- What follows the connection for the transactions. -/
def BlockFetch.connected (header : BlockHeader) (answer : Except String Unit) : BlockFetch :=
  match connectBlockService answer with
  | .error e => .done (.error e)
  | .ok _ => .fetching header (txTasks header.details.txIds)

/-- A step of the task of a block: it is answered, or it connects again, or one of the tasks of its
transactions goes on. -/
inductive BlockFetch.Step (service : BlockService) : BlockFetch → BlockFetch → Prop where
  | answered {height : UInt64} {connected : Except String Unit}
      {answer : Except String GetBlockDetailsResponse} (hconnect : service.connect connected)
      (h : service.getBlockDetails height answer) :
      Step service (.asking height)
        (BlockFetch.receive c height (fetchBlockDetailsByHeight height connected answer))
  | connected (header : BlockHeader) {answer : Except String Unit} (h : service.connect answer) :
      Step service (.connecting header) (BlockFetch.connected header answer)
  | task (header : BlockHeader) {tasks tasks' : TxPool}
      (h : Pool.Step (txFetch service) tasks tasks') :
      Step service (.fetching header tasks) (.fetching header tasks')
  | joined (header : BlockHeader) {tasks : TxPool}
      {r : Except String (List (Nat × TransactionDetails))} (h : Pool.joinAll tasks.slots = some r) :
      Step service (.fetching header tasks)
        (.done (r.bind fun indexed => finishBlock c header (inBlockOrder indexed)))

/-- `fetch_scan_block_inputs`. -/
def blockFetch (service : BlockService) : Worker BlockFetch (Except String ScanBlockFetch) where
  step := BlockFetch.Step c service
  result
    | .done r => some r
    | _ => none

/-- The tasks of the blocks of a batch. -/
abbrev BlockPool : Type := Pool BlockFetch (Except String ScanBlockFetch)

/-! ## Batches -/

/-- `SCAN_BLOCK_PREFETCH_CONCURRENCY`. -/
def scanBlockPrefetchConcurrency : Nat := 32

/-- The tasks of `prefetch_scan_blocks_for_heights_inner`. -/
def blockTasks (heights : List UInt64) (maxConcurrentBlocks : Nat) : BlockPool :=
  Pool.start (max maxConcurrentBlocks 1) (heights.map .asking)

/-- `prefetch_scan_blocks_for_heights_inner`, on the tasks of a batch. -/
def prefetchScanBlocks (service : BlockService) : Worker BlockPool (Except String (List ScanBlockFetch))
    where
  step := Pool.Step (blockFetch c service)
  result p := (Pool.joinAll p.slots).map (Except.map (sortByKey fun b => b.height.toNat))

end NnsVerified.Hull
