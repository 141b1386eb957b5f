import NnsVerified.Hoon.Formula
import NnsVerified.Kernel.Interface
import NnsVerified.Kernel.Proofs.CauseProofs
import NnsVerified.Kernel.Proofs.ValidatorProofs

/-!
# The validator inside the proof

The formula of `+build-validator-trace-inputs` calls the compiled validator on the bundle. So where
the arm of the compiled core computes the verdict on a bundle, the product that
`%claim-in-stark-proof` carries is that verdict.
-/

namespace NnsVerified.Kernel

open NnsVerified.Hoon NnsVerified.Library

variable {Acc Vesl : Type} {env : Env Acc Vesl} {s : State Acc Vesl}

/-! ## Nouns -/

/-- The poke of `%verify-chain-link`. -/
def chainLinkNoun (claimDigest : Nat) (headers : List AnchorHeader) (anchoredTip : Nat) : Noun :=
  Noun.tuple (.atom (cord "verify-chain-link")) [.atom claimDigest,
    Noun.list (headers.map AnchorHeader.noun), .atom anchoredTip]

/-- The poke of `%verify-tx-in-page`. -/
def txInPageNoun (digest : Nat) (txIds : List Nat) (claimedTxId : Nat) : Noun :=
  Noun.tuple (.atom (cord "verify-tx-in-page")) [.atom digest, Noun.list (txIds.map .atom),
    .atom claimedTxId]

/-- The noun of a `%prove-claim-in-stark`. -/
def ClaimBundleLinear.causeNoun (b : ClaimBundleLinear) : Noun :=
  .cell (.atom (cord "prove-claim-in-stark")) b.noun

theorem softCause_verifyChainLink (env : Env Acc Vesl) (claimDigest : Nat)
    (headers : List AnchorHeader) (anchoredTip : Nat) :
    softCause env (chainLinkNoun claimDigest headers anchoredTip)
      = some (.verifyChainLink claimDigest headers anchoredTip) := by
  refine (softCause_tag env .verifyChainLink _).trans ?_
  show (clamList clamAnchorHeader (Noun.list _)).bind (fun headers =>
    some (Cause.verifyChainLink claimDigest headers anchoredTip)) = _
  rw [clamList_headers, Option.bind_some]

theorem softCause_verifyTxInPage (env : Env Acc Vesl) (digest : Nat) (txIds : List Nat)
    (claimedTxId : Nat) : softCause env (txInPageNoun digest txIds claimedTxId)
      = some (.verifyTxInPage digest txIds claimedTxId) := by
  refine (softCause_tag env .verifyTxInPage _).trans ?_
  show (clamList clamAtom (Noun.list _)).bind (fun ids =>
    some (Cause.verifyTxInPage digest ids claimedTxId)) = _
  rw [clamList_ids, Option.bind_some]

theorem softCause_proveClaimInStark (env : Env Acc Vesl) (b : ClaimBundleLinear) :
    softCause env b.causeNoun = some (.proveClaimInStark b) := by
  refine (softCause_tag env .proveClaimInStark _).trans ?_
  show ((clamList clamAnchorHeader (Noun.list _)).bind fun headers =>
    (clamList clamAtom (Noun.list _)).bind fun ids =>
      some (Cause.proveClaimInStark ⟨b.name, b.owner, b.fee, b.txHash, b.claimBlockDigest, headers,
        b.pageDigest, ids, b.anchoredTip, b.anchoredTipHeight⟩)) = _
  rw [clamList_headers, Option.bind_some, clamList_ids, Option.bind_some]

/-! ## The product -/

/-- `(each ~ validation-error)`: `[%& ~]`, or `[%| tag]`. -/
def verdictNoun : Option ValidationError → Noun
  | none => .cell (.atom 0) (.atom 0)
  | some e => .cell (.atom 1) (.atom (cord e.text))

/-- The arm of the compiled core is a gate that computes the verdict on a bundle. -/
structure CompiledValidator (env : Env Acc Vesl) (bundle : ClaimBundleLinear) : Prop where
  computes : ∃ arm battery sample context, slot env.validatorArmAxis env.npCore = some arm ∧
    Yields env.npCore arm (.cell battery (.cell sample context)) ∧
    ∀ v, validateClaimBundleLinear bundle = .ok v →
      Yields (.cell battery (.cell bundle.noun context)) battery (verdictNoun v)

/-- On the trace inputs of a bundle the trace formula yields the verdict. -/
theorem yields_validatorTrace {bundle : ClaimBundleLinear} (h : CompiledValidator env bundle)
    {v : Option ValidationError} (hv : validateClaimBundleLinear bundle = .ok v) :
    Yields (buildValidatorTraceInputs env bundle).1 (buildValidatorTraceInputs env bundle).2
      (verdictNoun v) := by
  obtain ⟨arm, battery, sample, context, harm, hgate, hrun⟩ := h.computes
  exact yields_slam harm hgate (hrun v hv)

theorem mule_ne_hang {α : Type} {x : Eval α} {r : Except Noun α} (h : mule x = .ok r) :
    x ≠ .error .hang := by
  rintro rfl
  cases h

/-- Each proof that `%prove-claim-in-stark` emits carries the verdict on its bundle. -/
theorem proveClaimInStark_product {bundle : ClaimBundleLinear} (h : CompiledValidator env bundle)
    {v : Option ValidationError} (hv : validateClaimBundleLinear bundle = .ok v)
    {effects : List Effect} {t : State Acc Vesl}
    (hpoke : proveClaimInStark env s bundle = .ok (effects, t)) :
    (∃ reason, effects = [.proveFailed reason]) ∨
      ∃ proof, effects = [.claimInStarkProof (verdictNoun v) proof] := by
  have hyields := yields_validatorTrace h hv
  unfold proveClaimInStark at hpoke
  generalize buildValidatorTraceInputs env bundle = inputs at hyields hpoke
  obtain ⟨subj, form⟩ := inputs
  obtain ⟨dry, hdry, hpoke⟩ := bind_eq_ok hpoke
  have hproduct : nock env.fuel subj form = .ok (verdictNoun v) :=
    hyields.nock (mule_ne_hang hdry)
  cases dry with
  | error trace =>
    obtain ⟨rfl, -⟩ := Prod.mk.inj (Except.ok.inj hpoke)
    exact Or.inl ⟨_, rfl⟩
  | ok _ =>
    obtain ⟨attempt, -, hpoke⟩ := bind_eq_ok hpoke
    cases attempt with
    | error reason =>
      obtain ⟨rfl, -⟩ := Prod.mk.inj (Except.ok.inj hpoke)
      exact Or.inl ⟨_, rfl⟩
    | ok proof =>
      dsimp only at hpoke
      rw [hproduct, ok_bind] at hpoke
      obtain ⟨rfl, -⟩ := Prod.mk.inj (Except.ok.inj hpoke)
      exact Or.inr ⟨proof, rfl⟩

end NnsVerified.Kernel
