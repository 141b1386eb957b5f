import NnsVerified.Kernel.Accumulator

/-!
# `nns-predicates.hoon`

The predicates on names, fees, pages, header chains and payment witnesses, the two validators of a
claim bundle, and the claim scanner, which folds the valid claims of a block into the accumulator.
-/

namespace NnsVerified.Kernel

open NnsVerified.Hoon NnsVerified.Library

/-- `+$anchor-header`: a block header as the kernel sees it. -/
structure AnchorHeader where
  digest : Nat
  height : Nat
  parent : Nat
  deriving DecidableEq, Repr

/-- `+$nns-page-summary`: a block's digest and its transaction ids. -/
structure NnsPageSummary where
  digest : Nat
  txIds : List Nat
  deriving DecidableEq, Repr

/-- `+$nns-raw-tx-witness`: the payment data that the hull reads off a transaction. -/
structure NnsRawTxWitness where
  txId : Nat
  spenderPkh : Nat
  treasuryAmount : Nat
  outputLockRoot : Nat
  deriving DecidableEq, Repr

/-- `+$nns-claim`: a claim of a block, with the witness of its payment. -/
structure NnsClaim where
  name : Nat
  owner : Nat
  fee : Nat
  txHash : Nat
  witness : NnsRawTxWitness
  deriving DecidableEq, Repr

/-- `+$claim-bundle`: a claim with all that the validator checks it against. -/
structure ClaimBundle where
  name : Nat
  owner : Nat
  fee : Nat
  txHash : Nat
  claimBlockDigest : Nat
  anchorHeaders : List AnchorHeader
  page : NnsPageSummary
  anchoredTip : Nat
  anchoredTipHeight : Nat
  witness : NnsRawTxWitness
  deriving DecidableEq, Repr

/-- `+$claim-bundle-linear`: a bundle without a witness, and with its page in line. -/
structure ClaimBundleLinear where
  name : Nat
  owner : Nat
  fee : Nat
  txHash : Nat
  claimBlockDigest : Nat
  anchorHeaders : List AnchorHeader
  pageDigest : Nat
  pageTxIds : List Nat
  anchoredTip : Nat
  anchoredTipHeight : Nat
  deriving DecidableEq, Repr

/-- `+$validation-error`: the predicate that fails first. -/
inductive ValidationError where
  | invalidName
  | feeBelowSchedule
  | pageDigestMismatch
  | txNotInPage
  | chainBroken
  | anchorMismatch
  | witnessTxIdMismatch
  | witnessSenderMismatch
  | witnessUnderpaid
  | witnessWrongTreasury
  deriving DecidableEq, Repr

/-! ## Names and fees -/

/-- `+valid-char`: `a` to `z` or `0` to `9`. -/
def validChar (c : Nat) : Bool :=
  (decide (c ≥ cord "a") && decide (c ≤ cord "z")) || (decide (c ≥ cord "0") && decide (c ≤ cord "9"))

/-- `+all-valid-chars`: every byte of a cord. -/
def allValidChars (c : Nat) : Bool := (List.range (met 3 c)).all fun i => validChar (cut 3 i 1 c)

/-- `+has-nock-suffix`: at least one byte, and then `.nock`. -/
def hasNockSuffix (c : Nat) : Eval Bool := do
  let n := met 3 c
  if n < 6 then return false
  let off ← sub n 5
  return cut 3 off 5 c = cord ".nock"

/-- `+stem-len`: the number of bytes before `.nock`. -/
def stemLen (c : Nat) : Eval Nat := sub (met 3 c) 5

/-- `+is-valid-name`: a stem of valid characters, and then `.nock`. -/
def isValidName (name : Nat) : Eval Bool := do
  if !(← hasNockSuffix name) then return false
  let slen ← stemLen name
  if slen = 0 then return false
  return allValidChars (cut 3 0 slen name)

/-- `+fee-for-name`, in nicks. -/
def feeForName (name : Nat) : Eval Nat := do
  let bytes := met 3 name
  -- the suffix test admits the bare cord `.nock`, unlike `hasNockSuffix`
  let hasSuffix ← if bytes < 5 then pure false else do
    let off ← sub bytes 5
    pure (decide (cut 3 off 5 name = cord ".nock"))
  let slen ← if hasSuffix then sub bytes 5 else pure bytes
  if slen = 0 then return 0
  if slen ≥ 10 then return 6553600
  if slen ≥ 5 then return 32768000
  return 327680000

/-! ## Header chains and pages -/

/-- The walk of `+chain-links-to` after its first header. -/
def chainLinksTo.walk (anchoredTip : Nat) (prev : AnchorHeader) : List AnchorHeader → Bool
  | [] => prev.digest = anchoredTip
  | i :: t =>
    if i.parent ≠ prev.digest then false
    else if i.height ≠ prev.height + 1 then false
    else chainLinksTo.walk anchoredTip i t

/-- `+chain-links-to`: each header is the parent of the next, from the claim to the tip. -/
def chainLinksTo (claimDigest : Nat) (headers : List AnchorHeader) (anchoredTip : Nat) : Bool :=
  match headers with
  | [] => claimDigest = anchoredTip
  | i :: t => if i.parent ≠ claimDigest then false else chainLinksTo.walk anchoredTip i t

/-- `+has-tx-in-list`. -/
def hasTxInList : List Nat → Nat → Bool
  | [], _ => false
  | i :: t, claimedTxId => if i = claimedTxId then true else hasTxInList t claimedTxId

/-- `+has-tx-in-page`. -/
def hasTxInPage (pag : NnsPageSummary) (claimedTxId : Nat) : Bool :=
  hasTxInList pag.txIds claimedTxId

/-- `+matches-block-digest`. -/
def matchesBlockDigest (pag : NnsPageSummary) (claimedDigest : Nat) : Bool :=
  pag.digest = claimedDigest

/-! ## Payment witnesses -/

/-- `+matches-tx-id`: the witness is of the transaction that the claim names. -/
def matchesTxId (witness : NnsRawTxWitness) (claimTxHash : Nat) : Bool := witness.txId = claimTxHash

/-- `+sender-is-owner`: the spender of the transaction is the owner of the name. -/
def senderIsOwner (witness : NnsRawTxWitness) (claimOwner : Nat) : Bool :=
  claimOwner = witness.spenderPkh

/-- `+pays-amount`: the treasury gets the fee. -/
def paysAmount (witness : NnsRawTxWitness) (minFee : Nat) : Bool := witness.treasuryAmount ≥ minFee

/-- The lock root of the treasury. -/
def treasuryLockRoot : String := "A3LoWjxurwiyzhkv8sgDv2MVu9PwgWHmqoncXw9GEQ5M3qx46svvadE"

/-- `+matches-treasury`: the output is locked to the treasury. -/
def matchesTreasury (witness : NnsRawTxWitness) : Bool :=
  witness.outputLockRoot = cord treasuryLockRoot

/-! ## Validators -/

/-- `+validate-claim-bundle`: `none` is `[%& ~]`. -/
def validateClaimBundle (bundle : ClaimBundle) : Eval (Option ValidationError) := do
  if !(← isValidName bundle.name) then return some .invalidName
  if ¬ bundle.fee ≥ (← feeForName bundle.name) then return some .feeBelowSchedule
  if !matchesTxId bundle.witness bundle.txHash then return some .witnessTxIdMismatch
  if !senderIsOwner bundle.witness bundle.owner then return some .witnessSenderMismatch
  if !paysAmount bundle.witness (← feeForName bundle.name) then return some .witnessUnderpaid
  if !matchesTreasury bundle.witness then return some .witnessWrongTreasury
  if !matchesBlockDigest bundle.page bundle.claimBlockDigest then return some .pageDigestMismatch
  if !hasTxInPage bundle.page bundle.txHash then return some .txNotInPage
  if !chainLinksTo bundle.claimBlockDigest bundle.anchorHeaders bundle.anchoredTip then
    return some .chainBroken
  return none

/-- `+validate-claim-bundle-linear`: `none` is `[%& ~]`. -/
def validateClaimBundleLinear (bundle : ClaimBundleLinear) : Eval (Option ValidationError) := do
  if !(← isValidName bundle.name) then return some .invalidName
  if ¬ bundle.fee ≥ (← feeForName bundle.name) then return some .feeBelowSchedule
  if bundle.pageDigest ≠ bundle.claimBlockDigest then return some .pageDigestMismatch
  if !hasTxInList bundle.pageTxIds bundle.txHash then return some .txNotInPage
  if !chainLinksTo bundle.claimBlockDigest bundle.anchorHeaders bundle.anchoredTip then
    return some .chainBroken
  return none

/-- `+valid-claim`: the predicates in their order, up to the first that fails. -/
def validClaim (pag : NnsPageSummary) (c : NnsClaim) : Eval Bool := do
  if !(← isValidName c.name) then return false
  if ¬ c.fee ≥ (← feeForName c.name) then return false
  return hasTxInPage pag c.txHash && matchesTxId c.witness c.txHash &&
    senderIsOwner c.witness c.owner && paysAmount c.witness c.fee && matchesTreasury c.witness

/-! ## The scanner -/

variable {Acc Vesl : Type} (env : Env Acc Vesl)

/-- The row that a claim of a block makes. -/
def claimEntry (pag : NnsPageSummary) (height : Nat) (c : NnsClaim) : NnsAccumulatorEntry where
  name := c.name
  owner := c.owner
  txHash := c.txHash
  claimHeight := height
  blockDigest := pag.digest

/-- `+claim-scanner`: inserts the valid claims of a block, one after the other. -/
def claimScanner (acc : Acc) (pag : NnsPageSummary) (height : Nat) : List NnsClaim → Eval Acc
  | [] => pure acc
  | c :: t => do
    let acc ← if ← validClaim pag c then insert env acc c.name (claimEntry pag height c) else pure acc
    claimScanner acc pag height t

end NnsVerified.Kernel
