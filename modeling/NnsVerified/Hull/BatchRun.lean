import NnsVerified.Hull.FollowerRun

/-!
# `chain_follower.rs`: a batch of blocks

`apply_prefetched_scan_blocks_inner` on any state of the kernel, for claims that it extracts and for
claims that it is given. It takes the lock of the kernel for each of its pokes and peeks, so other
tasks poke the kernel in between.
-/

namespace NnsVerified.Hull

open NnsVerified.Hoon NnsVerified.Library NnsVerified.Kernel

variable {H Z L Acc Vesl : Type} (c : Crates H Z L) (env : PeekEnv Acc Vesl)

/-! ## Other tasks -/

/-- None of the pokes of a list moves the scan cursor. -/
def KeepsCursor (env : Env Acc Vesl) : State Acc Vesl → List Noun → Prop
  | _, [] => True
  | s, input :: inputs => (nextState env s input).lastProvedHeight = s.lastProvedHeight ∧
      (nextState env s input).lastProvedDigest = s.lastProvedDigest ∧
      KeepsCursor env (nextState env s input) inputs

/-- Where the follower is without the lock: before the `%scan-block` poke of a block, before the
peek of the stored proof, and before the poke of the transition. -/
inductive Gap where
  | scan (idx : Nat)
  | proof (idx : Nat)
  | transition (idx : Nat)
  deriving DecidableEq, Repr

/-- What other tasks send to the kernel in each gap. -/
structure Others (env : Env Acc Vesl) where
  pokes : Gap → State Acc Vesl → List Noun
  keep : ∀ gap s, KeepsCursor env s (pokes gap s)

/-- The kernel after a gap. -/
def Others.act {env : Env Acc Vesl} (others : Others env) (gap : Gap) (s : State Acc Vesl) :
    State Acc Vesl :=
  final (step env) s (others.pokes gap s)

/-- The follower alone. -/
def Others.none (env : Env Acc Vesl) : Others env where
  pokes _ _ := []
  keep _ _ := trivial

/-! ## Peeks -/

/-- The `/scan-state` peek, decoded. -/
def scanStateOf (s : State Acc Vesl) : Except String ScanState := do
  let result ← (peekNoun env s (buildScanStatePeek c)).mapError fun _ => "scan-state peek failed"
  (decodeScanState c result).mapError fun e => s!"scan-state decode failed: {e}"

/-- The `/recursive-proof` peek, decoded; any failure counts as no proof. -/
def prevTripleOf (s : State Acc Vesl) : Option (List UInt8 × List UInt8 × List UInt8) :=
  ((peekNoun env s (buildRecursiveProofPeek c)).toOption.bind fun r =>
    (decodeRecursiveProof c r).toOption).join

/-! ## The recursive transition -/

/-- What the builder of the transition poke asserts of each claim. -/
def hasWideIds (p : ClaimCandidate) : Bool :=
  p.txHash.length = 40 && p.witness.txId.length = 40

variable (others : Others env.toEnv)

/-- `try_y3_recursive_transition_after_block`. Its effects are only logged. -/
def tryRecursiveTransition (idx : Nat) (s : State Acc Vesl) (block : ScanBlockFetch)
    (claims : List ClaimCandidate) : State Acc Vesl × Except Failure Unit :=
  let s := others.act (.proof idx) s
  match prevTripleOf c env s with
  | none => (s, .ok ())
  | some (proof, subj, form) =>
    if claims.all hasWideIds then
      (nextState env.toEnv (others.act (.transition idx) s)
        (buildProveRecursiveTransitionPoke c proof subj form block.pageDigest block.pageTxIds claims
          []), .ok ())
    else (s, .error .panic)

/-! ## Batches -/

variable [DecidableEq H] (injectedClaims : Option (List (List ClaimCandidate)))

/-- The claims of a block: those that were given for it, sorted, or those of its transactions. -/
def scanClaims (idx : Nat) (pageTxForPoke : List (List UInt8)) (block : ScanBlockFetch) :
    Except String (List ClaimCandidate) :=
  match injectedClaims with
  | some inj =>
    match inj[idx]? with
    | some claims => (sortClaimsByZSetTxOrder c pageTxForPoke claims).mapError fun e =>
        s!"sort injected scan claims: {e}"
    | none => .error s!"injected claims missing for block index {idx}"
  | none => extractClaims c block.txDetails

/-- The claims of a block and its `%scan-block` poke. -/
def scanPoke (idx : Nat) (block : ScanBlockFetch) : Except String (List ClaimCandidate × Noun) := do
  let pageTxForPoke ← (canonicalZSetTxOrder c block.pageTxIds).mapError fun e =>
    s!"canonical tx-id order: {e}"
  let claims ← scanClaims c injectedClaims idx pageTxForPoke block
  return (claims, buildScanBlockPoke c block.parent block.height block.pageDigest pageTxForPoke
    claims)

/-- The body of the loop. -/
def applyFetchedBlock (idx : Nat) (s : State Acc Vesl) (block : ScanBlockFetch) :
    State Acc Vesl × Except Failure ScanBlockDone :=
  let s := others.act (.scan idx) s
  match scanPoke c injectedClaims idx block with
  | .error e => (s, .error (.message e))
  | .ok (claims, input) =>
    let s' := nextState env.toEnv s input
    match poke env.toEnv s input with
    | .error _ => (s', .error (.message "scan-block poke failed"))
    | .ok (effects, _) =>
      match scanBlockResult c (effects.map Effect.noun) with
      | .error e => (s', .error (.message e))
      | .ok done =>
        match tryRecursiveTransition c env others idx s' block claims with
        | (s'', .error e) => (s'', .error e)
        | (s'', .ok ()) => (s'', .ok done)

/-- The loop, from a block on. -/
def applyFetchedBlocks (idx : Nat) (s : State Acc Vesl) (lastDone : Option ScanBlockDone) :
    List ScanBlockFetch → State Acc Vesl × Except Failure (Option ScanBlockDone)
  | [] => (s, .ok lastDone)
  | block :: blocks =>
    match applyFetchedBlock c env others injectedClaims idx s block with
    | (s', .error e) => (s', .error e)
    | (s', .ok done) => applyFetchedBlocks (idx + 1) s' (some done) blocks

/-- `apply_prefetched_scan_blocks_inner`: the state of the kernel that it leaves, and its result. -/
def applyPrefetchedScanBlocksInner (s : State Acc Vesl) (prefetched : List ScanBlockFetch) :
    State Acc Vesl × Except Failure (Option ScanBlockOutcome) :=
  if prefetched.isEmpty then (s, .ok none)
  else
    match scanStateOf c env s with
    | .error e => (s, .error (.message e))
    | .ok st =>
      match validateScanBlockChain st.lastProvedHeight st.lastProvedDigest prefetched with
      | .error e => (s, .error (.message e))
      | .ok () =>
        let (s', result) := applyFetchedBlocks c env others injectedClaims 0 s none prefetched
        (s', result.bind fun lastDone =>
          match lastDone with
          | none => .error (.message "prefetch produced no blocks (internal error)")
          | some done => .ok (some
            ⟨done.height, done.digest, done.accumulatorRoot, prefetched.length⟩))

end NnsVerified.Hull
