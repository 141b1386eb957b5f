import NnsVerified.Hull.ChainFollower
import NnsVerified.Kernel.Interface

/-!
# `chain_follower.rs`: the loop

The follower is the only part of the server that pokes the kernel. Its run is the list of the pokes
that it has sent to a fresh kernel, which determines the state of the kernel. What it reads from the
chain is the input of a tick.
-/

namespace NnsVerified.Hull

open NnsVerified.Hoon NnsVerified.Library NnsVerified.Kernel

/-- `ScanBlockOutcome`: the last block of a batch. -/
structure ScanBlockOutcome where
  height : UInt64
  digest : List UInt8
  accumulatorRoot : List UInt8
  blocksApplied : Nat
  deriving DecidableEq, Repr

/-- What one pass of the follower reads from the outside. -/
structure Tick where
  /-- `fetch_current_tip_height`. -/
  currentChainTip : Except String UInt64
  /-- `follower_scan_batch_blocks`. -/
  batchMax : UInt64
  /-- `prefetch_scan_blocks_for_heights`. -/
  prefetch : List UInt64 → Except String (List ScanBlockFetch)

variable {H Z L Acc Vesl : Type} (c : Crates H Z L) (env : PeekEnv Acc Vesl)

/-! ## The kernel, as the follower uses it -/

/-- Send a poke: the effects, or `none` where the event crashed. -/
def sendPoke (sent : List Noun) (input : Noun) : Option (List Noun) :=
  ((poke env.toEnv (runState env.toEnv sent) input).toOption).map fun r => r.1.map Effect.noun

/-- The `/scan-state` peek, decoded. -/
def followerScanState (sent : List Noun) : Except String ScanState := do
  let result ← (peekNoun env (runState env.toEnv sent) (buildScanStatePeek c)).mapError fun _ =>
    "scan-state peek failed"
  (decodeScanState c result).mapError fun e => s!"scan-state decode failed: {e}"

/-- The `/recursive-proof` peek, decoded; any failure counts as no proof. -/
def prevTriple (sent : List Noun) : Option (List UInt8 × List UInt8 × List UInt8) :=
  ((peekNoun env (runState env.toEnv sent) (buildRecursiveProofPeek c)).toOption.bind fun r =>
    (decodeRecursiveProof c r).toOption).join

/-! ## The recursive transition -/

/-- The poke of `try_y3_recursive_transition_after_block`. The ids of extracted claims have the 40
bytes that the builder asserts. -/
def transitionPoke (sent : List Noun) (block : ScanBlockFetch) (claims : List ClaimCandidate) :
    Option Noun :=
  (prevTriple c env sent).map fun (proof, subj, form) =>
    buildProveRecursiveTransitionPoke c proof subj form block.pageDigest block.pageTxIds claims []

/-- Its effects are only logged. -/
def tryY3RecursiveTransitionAfterBlock (sent : List Noun) (block : ScanBlockFetch)
    (claims : List ClaimCandidate) : List Noun :=
  sent ++ (transitionPoke c env sent block claims).toList

/-! ## Batches -/

variable [DecidableEq H]

/-- The message for a `%scan-block` poke that returned without `%scan-block-done`. -/
def noDoneMessage (effects : List Noun) : String :=
  if hasEffect c effects "invalid-cause" then
    "%invalid-cause from kernel — `(soft cause)` failed (mold mismatch). " ++
      "Rebuild nns.jam from current hoon/app/app.hoon so `+$cause` includes `%scan-block`, " ++
      "point NNS_KERNEL_JAM at it, redeploy."
  else if effects.isEmpty then
    "kernel did not emit %scan-block-done (empty effects — wrapper/nockapp returned no effects; " ++
      "if stderr shows `nns: invalid cause`, rebuild nns.jam; otherwise check nockapp poke wiring)"
  else
    s!"kernel did not emit %scan-block-done (effect tags: {formatEffectTags c effects}; " ++
      "check kernel JAM vs hull or scan-block-done noun shape)"

/-- What the effects of a `%scan-block` poke mean to the follower. -/
def scanBlockResult (effects : List Noun) : Except String ScanBlockDone :=
  match firstScanBlockError c effects with
  | some err => .error s!"kernel rejected %scan-block: {err}"
  | none =>
    match firstErrorMessage c effects with
    | some err => .error s!"kernel rejected %scan-block: {err}"
    | none =>
      match firstScanBlockDone c effects with
      | some done => .ok done
      | none => .error (noDoneMessage c effects)

/-- The body of the loop of `apply_prefetched_scan_blocks_inner`. -/
def applyBlock (sent : List Noun) (block : ScanBlockFetch) :
    List Noun × Except String ScanBlockDone :=
  match canonicalZSetTxOrder c block.pageTxIds with
  | .error e => (sent, .error s!"canonical tx-id order: {e}")
  | .ok pageTxForPoke =>
    match extractClaims c block.txDetails with
    | .error e => (sent, .error e)
    | .ok claims =>
      let input := buildScanBlockPoke c block.parent block.height block.pageDigest pageTxForPoke
        claims
      let sent' := sent ++ [input]
      match sendPoke env sent input with
      | none => (sent', .error "scan-block poke failed")
      | some effects =>
        match scanBlockResult c effects with
        | .error e => (sent', .error e)
        | .ok done => (tryY3RecursiveTransitionAfterBlock c env sent' block claims, .ok done)

/-- The loop of `apply_prefetched_scan_blocks_inner`. -/
def applyBlocks (sent : List Noun) (lastDone : Option ScanBlockDone) :
    List ScanBlockFetch → List Noun × Except String (Option ScanBlockDone)
  | [] => (sent, .ok lastDone)
  | block :: blocks =>
    match applyBlock c env sent block with
    | (sent', .error e) => (sent', .error e)
    | (sent', .ok done) => applyBlocks sent' (some done) blocks

/-- `apply_prefetched_scan_blocks`, with claims that are extracted and no other task: the pokes up
to its end, and its result. -/
def applyPrefetchedScanBlocks (sent : List Noun) (prefetched : List ScanBlockFetch) :
    List Noun × Except String (Option ScanBlockOutcome) :=
  if prefetched.isEmpty then (sent, .ok none)
  else
    match followerScanState c env sent with
    | .error e => (sent, .error e)
    | .ok st =>
      match validateScanBlockChain st.lastProvedHeight st.lastProvedDigest prefetched with
      | .error e => (sent, .error e)
      | .ok () =>
        let (sent', result) := applyBlocks c env sent none prefetched
        (sent', result.bind fun lastDone =>
          match lastDone with
          | none => .error "prefetch produced no blocks (internal error)"
          | some done => .ok (some
            ⟨done.height, done.digest, done.accumulatorRoot, prefetched.length⟩))

/-! ## Ticks -/

/-- The base-case recursive proof, which is asked for at every tick at the genesis cursor. -/
def genesisProof (sent : List Noun) (st : ScanState) : List Noun × Except String Unit :=
  if scanCursorIsGenesisBoot st.lastProvedHeight st.lastProvedDigest then
    let input := buildProveRecursiveGenesisPoke c
    (sent ++ [input],
      match sendPoke env sent input with
      | none => .error "genesis recursive prove poke failed"
      | some _ => .ok ())
  else (sent, .ok ())

/-- `scan_once`, in a server that follows a chain. -/
def scanOnce (sent : List Noun) (tick : Tick) :
    List Noun × Except String (Option ScanBlockOutcome) :=
  match followerScanState c env sent with
  | .error e => (sent, .error e)
  | .ok st =>
    match genesisProof c env sent st with
    | (sent', .error e) => (sent', .error e)
    | (sent', .ok ()) =>
      match tick.currentChainTip with
      | .error e => (sent', .error e)
      | .ok currentChainTip =>
        match planHeights st currentChainTip tick.batchMax with
        | none => (sent', .ok none)
        | some heights =>
          match tick.prefetch heights with
          | .error e => (sent', .error e)
          | .ok prefetched => applyPrefetchedScanBlocks c env sent' prefetched

/-- The pokes of a run of the follower on a fresh kernel. -/
def followerPokes (ticks : List Tick) : List Noun :=
  ticks.foldl (fun sent tick => (scanOnce c env sent tick).1) []

/-! ## Restarts -/

/-- What happens to a server: a pass of the follower, or a restart, perhaps after a crash inside the
pass before it. The runtime restores the state that it has a checkpoint of, the one after some of the
pokes, and `+load` keeps it; the follower has no state of its own. -/
inductive ServerEvent where
  | pass (tick : Tick)
  | restart (kept : Nat)

/-- The pokes that the kernel has seen, as its state tells. -/
def ServerEvent.sent (sent : List Noun) : ServerEvent → List Noun
  | pass tick => (scanOnce c env sent tick).1
  | restart kept => sent.take kept

/-- The pokes that the kernel has had after the events of a server. -/
def servedPokes (events : List ServerEvent) : List Noun :=
  events.foldl (ServerEvent.sent c env) []

end NnsVerified.Hull
