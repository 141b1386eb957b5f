import NnsVerified.Hull.Kernel

/-!
# `kernel.rs`: calls of the kernel's predicates and proofs

The pokes that ask the kernel for a verdict or a proof and change neither its registry nor its
cursor, and the readers of what it answers.
-/

namespace NnsVerified.Hull

open NnsVerified.Hoon NnsVerified.Library

variable {H Z L : Type} (c : Crates H Z L)

/-! ## Pokes -/

/-- Headers as a list. -/
def headersNoun (headers : List AnchorHeader) : Noun :=
  headers.foldr (fun h rest => .cell (Noun.tuple (c.makeAtomIn h.digest)
    [c.atomFromU64 h.height, c.makeAtomIn h.parent]) rest) (.atom 0)

/-- Transaction ids as a list. -/
def txIdsNoun (ids : List (List UInt8)) : Noun :=
  ids.foldr (fun id rest => .cell (c.makeAtomIn id) rest) (.atom 0)

/-- `build_verify_chain_link_poke`: do the headers lead from the digest to the tip? -/
def buildVerifyChainLinkPoke (claimDigest : List UInt8) (headers : List AnchorHeader)
    (anchoredTip : List UInt8) : Noun :=
  Noun.tuple (c.makeTagIn "verify-chain-link") [c.makeAtomIn claimDigest, headersNoun c headers,
    c.makeAtomIn anchoredTip]

/-- `build_verify_tx_in_page_poke`: does the page list the transaction? -/
def buildVerifyTxInPagePoke (pageDigest : List UInt8) (txIds : List (List UInt8))
    (claimedTxId : List UInt8) : Noun :=
  Noun.tuple (c.makeTagIn "verify-tx-in-page") [c.makeAtomIn pageDigest, txIdsNoun c txIds,
    c.makeAtomIn claimedTxId]

/-- The fields of a bundle without its witness. -/
def buildProveClaimInStarkPoke (bundle : ClaimBundle) : Noun :=
  Noun.tuple (c.makeTagIn "prove-claim-in-stark") [c.makeCordIn bundle.name,
    c.makeCordIn bundle.owner, c.atomFromU64 bundle.fee, c.makeAtomIn bundle.txHash,
    c.makeAtomIn bundle.claimBlockDigest, headersNoun c bundle.anchorHeaders,
    c.makeAtomIn bundle.pageDigest, txIdsNoun c bundle.pageTxIds, c.makeAtomIn bundle.anchoredTip,
    c.atomFromU64 bundle.anchoredTipHeight]

/-! ## Effects -/

/-- `chain_link_result`: the verdict on a chain of headers. -/
def chainLinkResult (effect : Noun) : Option Bool := effectLoob c "chain-link-result" effect

/-- `first_chain_link_result`. -/
def firstChainLinkResult (effects : List Noun) : Option Bool :=
  effects.findSome? (chainLinkResult c)

/-- `tx_in_page_result`: the verdict on a page. -/
def txInPageResult (effect : Noun) : Option Bool := effectLoob c "tx-in-page-result" effect

/-- `first_tx_in_page_result`. -/
def firstTxInPageResult (effects : List Noun) : Option Bool :=
  effects.findSome? (txInPageResult c)

/-- An atom as a text, without the NUL characters at its end. -/
def atomText (n : Noun) : Option String := do
  let bytes ← (asNeBytes c n).toOption
  (fromUtf8 bytes).map trimEndNul

/-- `ValidateClaimResult`: a valid bundle, or the tag of the predicate that fails. -/
inductive ValidateClaimResult where
  | ok
  | error (tag : String)
  deriving DecidableEq, Repr

/-- `validate_claim_result`: the verdict of the validator. -/
def validateClaimResult (effect : Noun) : Option ValidateClaimResult := do
  let tag ← effectTag c effect
  if tag = "validate-claim-ok" then some .ok
  else if tag = "validate-claim-error" then do
    let msg ← (tail effect).toOption
    let s ← atomText c msg
    some (.error s)
  else none

/-- `first_validate_claim_result`. -/
def firstValidateClaimResult (effects : List Noun) : Option ValidateClaimResult :=
  effects.findSome? (validateClaimResult c)

/-- The return of the validator as the product of the trace carries it. -/
inductive InStarkValidation where
  | ok
  | rejected (tag : String)
  deriving DecidableEq, Repr

/-- `ClaimInStarkProof`: what the traced validator returned, and the jam of the proof of it. -/
structure ClaimInStarkProof where
  validation : InStarkValidation
  proofJam : List UInt8
  deriving DecidableEq, Repr

/-- `claim_in_stark_proof`: the product and the proof of a `%claim-in-stark-proof`. -/
def claimInStarkProof (w : BlobCrates H Z L) (effect : Noun) : Option ClaimInStarkProof := do
  let tag ← effectTag w.toCrates effect
  if tag ≠ "claim-in-stark-proof" then none
  let rest ← (tail effect).toOption
  let product ← (head rest).toOption
  let proof ← (tail rest).toOption
  let tagVal ← ((head product).bind (asU64 w.toCrates)).toOption
  let validation ←
    if tagVal = 0 then some .ok
    else if tagVal = 1 then do
      let err ← (tail product).toOption
      let s ← atomText w.toCrates err
      some (.rejected s)
    else none
  return { validation, proofJam := w.slabJam proof }

/-- `first_claim_in_stark_proof`. -/
def firstClaimInStarkProof (w : BlobCrates H Z L) (effects : List Noun) : Option ClaimInStarkProof :=
  effects.findSome? (claimInStarkProof w)

end NnsVerified.Hull
