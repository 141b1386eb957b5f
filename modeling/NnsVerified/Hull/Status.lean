import NnsVerified.Hull.FollowerRun
import NnsVerified.Hull.Hex

/-!
# `state.rs`, `api.rs`: what `GET /status` reports

The follower records what it observes in the hull, next to what it does to the kernel. A trace lists
both in the order in which they happen, so each of its prefixes is a moment of the run. The handler
of `/status` takes the lock of the hull and then that of the kernel: it reads the two at different
moments.
-/

namespace NnsVerified.Hull

open NnsVerified.Hoon NnsVerified.Library NnsVerified.Kernel

/-! ## Telemetry -/

/-- `last_error_phase`: where an error comes from. -/
inductive FollowerPhase where
  | scanBlock
  | scanPeek
  | plan
  | scanPoke
  deriving DecidableEq, Repr

/-- The text of a phase. -/
def FollowerPhase.text : FollowerPhase → String
  | scanBlock => "scan_block"
  | scanPeek => "scan_peek"
  | plan => "plan"
  | scanPoke => "scan_poke"

/-- `FollowerObservability`. -/
structure FollowerObservability where
  lastChainTipHeight : Option UInt64 := none
  lastChainTipObservedAtEpochMs : Option UInt64 := none
  lastAdvanceAtEpochMs : Option UInt64 := none
  lastAdvanceTipHeight : Option UInt64 := none
  lastAdvanceCount : Option Nat := none
  lastError : Option String := none
  lastErrorAtEpochMs : Option UInt64 := none
  lastErrorPhase : Option FollowerPhase := none
  deriving DecidableEq, Repr

namespace FollowerObservability

variable (o : FollowerObservability)

/-- `record_advance`: a batch, which clears the error. -/
def recordAdvance (tipHeight : UInt64) (count : Nat) (nowMs : UInt64) : FollowerObservability :=
  { o with
    lastAdvanceAtEpochMs := some nowMs
    lastAdvanceTipHeight := some tipHeight
    lastAdvanceCount := some count
    lastError := none
    lastErrorAtEpochMs := none
    lastErrorPhase := none }

/-- `record_chain_tip`. -/
def recordChainTip (tip nowMs : UInt64) : FollowerObservability :=
  { o with
    lastChainTipHeight := some tip
    lastChainTipObservedAtEpochMs := some nowMs }

/-- `record_error`. -/
def recordError (phase : FollowerPhase) (err : String) (nowMs : UInt64) : FollowerObservability :=
  { o with
    lastError := some err
    lastErrorAtEpochMs := some nowMs
    lastErrorPhase := some phase }

end FollowerObservability

/-! ## Traces -/

/-- A poke of the kernel, or a record of the hull. -/
inductive FollowerEvent where
  | poked (input : Noun)
  | advanced (tipHeight : UInt64) (count : Nat)
  | sawTip (tip : UInt64)
  | failed (phase : FollowerPhase) (err : String)

namespace FollowerEvent

/-- What an event sends to the kernel. -/
def input : FollowerEvent → Option Noun
  | poked input => some input
  | _ => none

/-- What an event records. -/
def record (o : FollowerObservability) (nowMs : UInt64) : FollowerEvent → FollowerObservability
  | poked _ => o
  | advanced tipHeight count => o.recordAdvance tipHeight count nowMs
  | sawTip tip => o.recordChainTip tip nowMs
  | failed phase err => o.recordError phase err nowMs

end FollowerEvent

/-- The pokes of a trace. -/
def pokesOf (trace : List FollowerEvent) : List Noun := trace.filterMap FollowerEvent.input

/-- The telemetry after a trace. The clock tells the time of each event, and may go backwards. -/
def observed (clock : Nat → UInt64) (trace : List FollowerEvent) : FollowerObservability :=
  trace.zipIdx.foldl (fun o e => e.1.record o (clock e.2)) {}

/-! ## The follower, with what it records -/

/-- A pass of the loop, and whether the hull is free where the pass only tries its lock. -/
structure FollowerTurn extends Tick where
  hullFree : Bool

variable {H Z L Acc Vesl : Type} (c : Crates H Z L) (env : PeekEnv Acc Vesl)

/-- The `/scan-state` peek: only a peek that crashes is recorded here. -/
def tracedScanState (trace : List FollowerEvent) : List FollowerEvent × Except String ScanState :=
  match peekNoun env (runState env.toEnv (pokesOf trace)) (buildScanStatePeek c) with
  | .error _ => (trace ++ [.failed .scanPeek "scan-state peek failed"],
      .error "scan-state peek failed")
  | .ok result => (trace,
      (decodeScanState c result).mapError fun e => s!"scan-state decode failed: {e}")

/-- `genesisProof`, with its poke in the trace. -/
def tracedGenesisProof (trace : List FollowerEvent) (st : ScanState) :
    List FollowerEvent × Except String Unit :=
  if scanCursorIsGenesisBoot st.lastProvedHeight st.lastProvedDigest then
    let input := buildProveRecursiveGenesisPoke c
    (trace ++ [.poked input],
      match sendPoke env (pokesOf trace) input with
      | none => .error "genesis recursive prove poke failed"
      | some _ => .ok ())
  else (trace, .ok ())

variable [DecidableEq H]

/-- The body of the loop of `apply_prefetched_scan_blocks_inner`. After a poke that crashes, the
error is recorded only where the hull is free. -/
def tracedBlock (hullFree : Bool) (trace : List FollowerEvent) (block : ScanBlockFetch) :
    List FollowerEvent × Except String ScanBlockDone :=
  match canonicalZSetTxOrder c block.pageTxIds with
  | .error e => (trace, .error s!"canonical tx-id order: {e}")
  | .ok pageTxForPoke =>
    match extractClaims c block.txDetails with
    | .error e => (trace, .error e)
    | .ok claims =>
      let input := buildScanBlockPoke c block.parent block.height block.pageDigest pageTxForPoke
        claims
      let trace' := trace ++ [.poked input]
      match sendPoke env (pokesOf trace) input with
      | none =>
        let recorded := if hullFree then [.failed .scanPoke "scan-block poke failed"] else []
        (trace' ++ recorded, .error "scan-block poke failed")
      | some effects =>
        match scanBlockResult c effects with
        | .error e => (trace' ++ [.failed .scanPoke e], .error e)
        | .ok done => (trace' ++
            (transitionPoke c env (pokesOf trace') block claims).toList.map .poked, .ok done)

/-- The loop of `apply_prefetched_scan_blocks_inner`. -/
def tracedBlocks (hullFree : Bool) (trace : List FollowerEvent) (lastDone : Option ScanBlockDone) :
    List ScanBlockFetch → List FollowerEvent × Except String (Option ScanBlockDone)
  | [] => (trace, .ok lastDone)
  | block :: blocks =>
    match tracedBlock c env hullFree trace block with
    | (trace', .error e) => (trace', .error e)
    | (trace', .ok done) => tracedBlocks hullFree trace' (some done) blocks

/-- `apply_prefetched_scan_blocks_inner`, as `scan_once` calls it. -/
def tracedBatch (hullFree : Bool) (trace : List FollowerEvent) (prefetched : List ScanBlockFetch) :
    List FollowerEvent × Except String (Option ScanBlockOutcome) :=
  if prefetched.isEmpty then (trace, .ok none)
  else
    match tracedScanState c env trace with
    | (trace', .error e) => (trace', .error e)
    | (trace', .ok st) =>
      match validateScanBlockChain st.lastProvedHeight st.lastProvedDigest prefetched with
      | .error e => (trace', .error e)
      | .ok () =>
        match tracedBlocks c env hullFree trace' none prefetched with
        | (trace'', .error e) => (trace'', .error e)
        | (trace'', .ok none) => (trace'', .error "prefetch produced no blocks (internal error)")
        | (trace'', .ok (some done)) => (trace'' ++ [.advanced done.height prefetched.length],
            .ok (some ⟨done.height, done.digest, done.accumulatorRoot, prefetched.length⟩))

/-- `scan_once`, in a server that follows a chain. -/
def tracedScan (trace : List FollowerEvent) (turn : FollowerTurn) :
    List FollowerEvent × Except String (Option ScanBlockOutcome) :=
  match tracedScanState c env trace with
  | (trace', .error e) => (trace', .error e)
  | (trace', .ok st) =>
    match tracedGenesisProof c env trace' st with
    | (trace'', .error e) => (trace'', .error e)
    | (trace'', .ok ()) =>
      match turn.currentChainTip with
      | .error e => (trace'' ++ [.failed .plan e], .error e)
      | .ok currentChainTip =>
        let told := trace'' ++ [.sawTip currentChainTip]
        match planHeights st currentChainTip turn.batchMax with
        | none => (told, .ok none)
        | some heights =>
          match turn.prefetch heights with
          | .error e => (told, .error e)
          | .ok prefetched => tracedBatch c env turn.hullFree told prefetched

/-- The body of the loop of `spawn`: an error of the pass is recorded once more, as `scan_block`. -/
def spawnTurn (trace : List FollowerEvent) (turn : FollowerTurn) : List FollowerEvent :=
  match tracedScan c env trace turn with
  | (trace', .error e) => trace' ++ [.failed .scanBlock e]
  | (trace', .ok _) => trace'

/-- The trace of a run of the follower on a fresh kernel. -/
def spawnTrace (turns : List FollowerTurn) : List FollowerEvent := turns.foldl (spawnTurn c env) []

/-! ## `GET /status` -/

/-- What the handler shows of the settlement, which no request changes. -/
structure SettlementStatus where
  settlementMode : String
  chainEndpoint : Option String
  deriving DecidableEq, Repr

/-- `"anchor"`. -/
structure AnchorStatus where
  tipHeight : UInt64
  tipDigest : String
  deriving DecidableEq, Repr

/-- `"scan_state"`. -/
structure ScanStateStatus where
  lastProvedHeight : UInt64
  lastProvedDigest : String
  accumulatorRoot : String
  accumulatorSize : UInt64
  deriving DecidableEq, Repr

/-- `"follower"`. -/
structure FollowerStatus where
  chainTipHeight : Option UInt64
  anchorLagBlocks : Option UInt64
  isCaughtUp : Option Bool
  lastAdvanceAtEpochMs : Option UInt64
  lastAdvanceAgeSeconds : Option UInt64
  lastAdvanceTipHeight : Option UInt64
  lastAdvanceCount : Option Nat
  lastChainTipObservedAtEpochMs : Option UInt64
  lastError : Option String
  lastErrorPhase : Option String
  lastErrorAtEpochMs : Option UInt64
  finalityDepth : UInt64
  maxAdvanceBatch : UInt64
  scanBatchBlocksDefault : UInt64
  nnsGenesisHeight : UInt64
  deriving DecidableEq, Repr

/-- The JSON of `GET /status`. -/
structure StatusResponse where
  settlement : SettlementStatus
  anchor : Option AnchorStatus
  scanState : Option ScanStateStatus
  follower : FollowerStatus
  deriving DecidableEq, Repr

/-- `DEFAULT_MAX_ADVANCE_BATCH`. -/
def defaultMaxAdvanceBatch : UInt64 := 1

/-- `DEFAULT_SCAN_BATCH_BLOCKS`. -/
def defaultScanBatchBlocks : UInt64 := 32

/-- `anchor_lag_blocks` and `is_caught_up`, where both heights are known. -/
def lagStatus (chainTip scanTip : UInt64) : UInt64 × Bool :=
  let lag := saturatingSub chainTip scanTip
  (lag, lag ≤ defaultFinalityDepth + 1)

/-- The handler, for the telemetry and the scan state that it reads. -/
def statusResponse (settlement : SettlementStatus) (nowMillis : UInt64)
    (o : FollowerObservability) (scanState : Option ScanState) : StatusResponse :=
  let lag := o.lastChainTipHeight.bind fun chainTip =>
    scanState.map fun s => lagStatus chainTip s.lastProvedHeight
  { settlement
    anchor := scanState.map fun s => ⟨s.lastProvedHeight, hexEncode s.lastProvedDigest⟩
    scanState := scanState.map fun s => ⟨s.lastProvedHeight, hexEncode s.lastProvedDigest,
      hexEncode s.accumulatorRoot, s.accumulatorSize⟩
    follower := {
      chainTipHeight := o.lastChainTipHeight
      anchorLagBlocks := lag.map Prod.fst
      isCaughtUp := lag.map Prod.snd
      lastAdvanceAtEpochMs := o.lastAdvanceAtEpochMs
      lastAdvanceAgeSeconds := o.lastAdvanceAtEpochMs.map fun t => saturatingSub nowMillis t / 1000
      lastAdvanceTipHeight := o.lastAdvanceTipHeight
      lastAdvanceCount := o.lastAdvanceCount
      lastChainTipObservedAtEpochMs := o.lastChainTipObservedAtEpochMs
      lastError := o.lastError
      lastErrorPhase := o.lastErrorPhase.map FollowerPhase.text
      lastErrorAtEpochMs := o.lastErrorAtEpochMs
      finalityDepth := defaultFinalityDepth
      maxAdvanceBatch := defaultMaxAdvanceBatch
      scanBatchBlocksDefault := defaultScanBatchBlocks
      nnsGenesisHeight := scanFirst } }

/-- What the handler shows that finds the telemetry of one moment and the kernel of another one. -/
def statusAt (settlement : SettlementStatus) (clock : Nat → UInt64) (nowMillis : UInt64)
    (hullAt kernelAt : List FollowerEvent) : StatusResponse :=
  statusResponse settlement nowMillis (observed clock hullAt)
    (followerScanState c env (pokesOf kernelAt)).toOption

end NnsVerified.Hull
