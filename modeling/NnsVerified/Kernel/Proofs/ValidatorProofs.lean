import NnsVerified.Kernel.Proofs.PredicatesProofs
import NnsVerified.Library.FirstFailing

/-!
# The two validators of a claim bundle and `valid-claim`

A validator makes its checks in order and answers with the tag of the first that fails. The checks
of the linear validator are a sublist of those of the full one.
-/

namespace NnsVerified.Kernel

open NnsVerified.Hoon NnsVerified.Library

/-- The fee that `fee-for-name` asks for a name. -/
def scheduledFee (name : Nat) : Nat := feeOfLength (stemLength (rip 3 name))

theorem feeForName_scheduled (name : Nat) : feeForName name = .ok (scheduledFee name) :=
  feeForName_eq name

/-- The form of a bundle that the linear validator reads. -/
def ClaimBundle.linear (b : ClaimBundle) : ClaimBundleLinear where
  name := b.name
  owner := b.owner
  fee := b.fee
  txHash := b.txHash
  claimBlockDigest := b.claimBlockDigest
  anchorHeaders := b.anchorHeaders
  pageDigest := b.page.digest
  pageTxIds := b.page.txIds
  anchoredTip := b.anchoredTip
  anchoredTipHeight := b.anchoredTipHeight

/-- The claim that a bundle is about. -/
def ClaimBundle.claim (b : ClaimBundle) : NnsClaim where
  name := b.name
  owner := b.owner
  fee := b.fee
  txHash := b.txHash
  witness := b.witness

/-! ## The checks -/

/-- The check of the name, with its error. -/
def nameCheck (b : ClaimBundle) : Bool × ValidationError := (ValidName b.name, .invalidName)

/-- The check of the fee. -/
def feeCheck (b : ClaimBundle) : Bool × ValidationError :=
  (scheduledFee b.name ≤ b.fee, .feeBelowSchedule)

/-- The checks of the witness, in their order. -/
def witnessChecks (b : ClaimBundle) : List (Bool × ValidationError) :=
  [(matchesTxId b.witness b.txHash, .witnessTxIdMismatch),
    (senderIsOwner b.witness b.owner, .witnessSenderMismatch),
    (paysAmount b.witness (scheduledFee b.name), .witnessUnderpaid),
    (matchesTreasury b.witness, .witnessWrongTreasury)]

/-- The checks of the page and of the chain, in their order. -/
def pageChecks (b : ClaimBundle) : List (Bool × ValidationError) :=
  [(matchesBlockDigest b.page b.claimBlockDigest, .pageDigestMismatch),
    (hasTxInPage b.page b.txHash, .txNotInPage),
    (chainLinksTo b.claimBlockDigest b.anchorHeaders b.anchoredTip, .chainBroken)]

/-- The checks of the validator. -/
def fullChecks (b : ClaimBundle) : List (Bool × ValidationError) :=
  nameCheck b :: feeCheck b :: (witnessChecks b ++ pageChecks b)

/-- The checks of the linear validator. -/
def linearChecks (b : ClaimBundle) : List (Bool × ValidationError) :=
  nameCheck b :: feeCheck b :: pageChecks b

theorem linearChecks_sublist (b : ClaimBundle) : (linearChecks b).Sublist (fullChecks b) :=
  ((List.sublist_append_right _ _).cons_cons _).cons_cons _

theorem nodup_fullChecks (b : ClaimBundle) : ((fullChecks b).map Prod.snd).Nodup := by
  simp [fullChecks, nameCheck, feeCheck, witnessChecks, pageChecks]

/-- `validate-claim-bundle` never crashes. -/
theorem validateClaimBundle_eq (b : ClaimBundle) :
    validateClaimBundle b = .ok (firstFailing (fullChecks b)) := by
  unfold validateClaimBundle
  simp only [isValidName_eq, feeForName_scheduled, ok_bind, fullChecks, nameCheck, feeCheck,
    witnessChecks, pageChecks, List.cons_append, List.nil_append, firstFailing_cons,
    firstFailing_nil, apply_ite Except.ok]
  simp

/-- `validate-claim-bundle-linear` never crashes. -/
theorem validateClaimBundleLinear_eq (b : ClaimBundle) :
    validateClaimBundleLinear b.linear = .ok (firstFailing (linearChecks b)) := by
  unfold validateClaimBundleLinear ClaimBundle.linear
  simp only [isValidName_eq, feeForName_scheduled, ok_bind, linearChecks, nameCheck, feeCheck,
    pageChecks, firstFailing_cons, firstFailing_nil, apply_ite Except.ok]
  simp [matchesBlockDigest, hasTxInPage]

theorem validateClaimBundle_none (b : ClaimBundle) :
    validateClaimBundle b = .ok none ↔
      (nameCheck b).1 ∧ (feeCheck b).1 ∧ (∀ c ∈ witnessChecks b, c.1) ∧ ∀ c ∈ pageChecks b, c.1 := by
  rw [validateClaimBundle_eq, Except.ok.injEq, firstFailing_eq_none, fullChecks,
    List.forall_mem_cons, List.forall_mem_cons, List.forall_mem_append]

theorem validateClaimBundleLinear_none (b : ClaimBundle) :
    validateClaimBundleLinear b.linear = .ok none ↔
      (nameCheck b).1 ∧ (feeCheck b).1 ∧ ∀ c ∈ pageChecks b, c.1 := by
  rw [validateClaimBundleLinear_eq, Except.ok.injEq, firstFailing_eq_none, linearChecks,
    List.forall_mem_cons, List.forall_mem_cons]

/-! ## `validate-claim` and `scan-block` -/

/-- The predicates on a bundle that do not compare amounts. -/
def ClaimBundle.InOrder (b : ClaimBundle) : Prop :=
  isValidName b.name = .ok true ∧ matchesTxId b.witness b.txHash ∧ senderIsOwner b.witness b.owner ∧
    matchesTreasury b.witness ∧ matchesBlockDigest b.page b.claimBlockDigest ∧
    hasTxInPage b.page b.txHash ∧
    chainLinksTo b.claimBlockDigest b.anchorHeaders b.anchoredTip

theorem validateClaimBundle_iff_inOrder (b : ClaimBundle) :
    validateClaimBundle b = .ok none ↔ b.InOrder ∧ scheduledFee b.name ≤ b.fee ∧
      scheduledFee b.name ≤ b.witness.treasuryAmount := by
  rw [validateClaimBundle_none]
  simp only [ClaimBundle.InOrder, isValidName_true, nameCheck, feeCheck, witnessChecks, pageChecks,
    List.forall_mem_cons, List.not_mem_nil, IsEmpty.forall_iff, implies_true, and_true, paysAmount,
    decide_eq_true_eq, ge_iff_le]
  constructor
  · rintro ⟨hname, hfee, ⟨htx, hsender, hpays, htreasury⟩, hpage⟩
    exact ⟨⟨hname, htx, hsender, htreasury, hpage⟩, hfee, hpays⟩
  · rintro ⟨⟨hname, htx, hsender, htreasury, hpage⟩, hfee, hpays⟩
    exact ⟨hname, hfee, ⟨htx, hsender, hpays, htreasury⟩, hpage⟩

theorem validClaim_iff_inOrder (b : ClaimBundle) :
    (validClaim b.page b.claim = .ok true ∧ b.claimBlockDigest = b.page.digest ∧
        chainLinksTo b.claimBlockDigest b.anchorHeaders b.anchoredTip = true) ↔
      b.InOrder ∧ scheduledFee b.name ≤ b.fee ∧ b.fee ≤ b.witness.treasuryAmount := by
  have hvalid : validClaim b.page b.claim = .ok true ↔ ValidClaim b.page b.claim := by
    rw [validClaim_eq, Except.ok.injEq, decide_eq_true_iff]
  have hdigest : b.claimBlockDigest = b.page.digest ↔
      matchesBlockDigest b.page b.claimBlockDigest = true := by
    simp [matchesBlockDigest, eq_comm]
  rw [hvalid, hdigest]
  simp only [ClaimBundle.InOrder, isValidName_true, ValidClaim, ClaimBundle.claim, scheduledFee,
    paysAmount, decide_eq_true_eq, ge_iff_le]
  constructor
  · rintro ⟨⟨hname, hfee, hpage, htx, hsender, hpays, htreasury⟩, hdigest, hchain⟩
    exact ⟨⟨hname, htx, hsender, htreasury, hdigest, hpage, hchain⟩, hfee, hpays⟩
  · rintro ⟨⟨hname, htx, hsender, htreasury, hdigest, hpage, hchain⟩, hfee, hpays⟩
    exact ⟨⟨hname, hfee, hpage, htx, hsender, hpays, htreasury⟩, hdigest, hchain⟩

/-- The two decide alike except on a bundle that is otherwise in order and pays at least the
scheduled fee but less than the fee it declares. -/
theorem validateClaimBundle_iff_validClaim (b : ClaimBundle) :
    (validateClaimBundle b = .ok none ↔
      validClaim b.page b.claim = .ok true ∧ b.claimBlockDigest = b.page.digest ∧
        chainLinksTo b.claimBlockDigest b.anchorHeaders b.anchoredTip = true) ↔
    ¬(b.InOrder ∧ scheduledFee b.name ≤ b.witness.treasuryAmount ∧
      b.witness.treasuryAmount < b.fee) := by
  rw [validateClaimBundle_iff_inOrder, validClaim_iff_inOrder]
  constructor
  · rintro halign ⟨horder, hsched, hunder⟩
    have hpaid := (halign.mp ⟨horder, by omega, hsched⟩).2.2
    omega
  · intro hband
    constructor
    · rintro ⟨horder, hfee, hsched⟩
      refine ⟨horder, hfee, ?_⟩
      by_contra hunder
      exact hband ⟨horder, hsched, by omega⟩
    · rintro ⟨horder, hfee, hpaid⟩
      exact ⟨horder, hfee, by omega⟩

/-- A bundle on a block with one transaction, which is the tip. -/
def lowBundle (fee treasuryAmount : Nat) : ClaimBundle where
  name := cord "ab.nock"
  owner := 7
  fee := fee
  txHash := 9
  claimBlockDigest := 66
  anchorHeaders := []
  page := ⟨66, [9]⟩
  anchoredTip := 66
  anchoredTipHeight := 63001
  witness := ⟨9, 7, treasuryAmount, cord treasuryLockRoot⟩

/-- A bundle that declares a fee of 400000000 and pays the scheduled 327680000. -/
theorem validateClaimBundle_not_validClaim :
    ¬(validateClaimBundle (lowBundle 400000000 327680000) = .ok none ↔
      validClaim (lowBundle 400000000 327680000).page (lowBundle 400000000 327680000).claim
          = .ok true ∧
        (lowBundle 400000000 327680000).claimBlockDigest
          = (lowBundle 400000000 327680000).page.digest ∧
        chainLinksTo (lowBundle 400000000 327680000).claimBlockDigest
          (lowBundle 400000000 327680000).anchorHeaders
          (lowBundle 400000000 327680000).anchoredTip = true) := by
  decide

/-! ## The linear validator -/

/-- The tags of the linear validator, which the full one can answer too. -/
def commonTags : List ValidationError :=
  [.invalidName, .feeBelowSchedule, .pageDigestMismatch, .txNotInPage, .chainBroken]

/-- The linear validator answers with the tag of the full one where both can answer with it. -/
theorem validateClaimBundleLinear_of_common {b : ClaimBundle} {e : ValidationError}
    (h : validateClaimBundle b = .ok (some e)) (he : e ∈ commonTags) :
    validateClaimBundleLinear b.linear = .ok (some e) := by
  rw [validateClaimBundle_eq, Except.ok.injEq] at h
  rw [validateClaimBundleLinear_eq,
    firstFailing_of_sublist (linearChecks_sublist b) (nodup_fullChecks b) h he]

/-- The two validators decide alike exactly on the bundles whose witness passes whenever everything
else does; where both reject with a tag that both have, it is the same tag. -/
theorem validateClaimBundleLinear_iff (b : ClaimBundle) :
    ((validateClaimBundleLinear b.linear = .ok none ↔ validateClaimBundle b = .ok none) ∧
      ∀ e e', validateClaimBundle b = .ok (some e) →
        validateClaimBundleLinear b.linear = .ok (some e') → e ∈ commonTags → e' ∈ commonTags →
        e = e') ↔
    (isValidName b.name = .ok true ∧ scheduledFee b.name ≤ b.fee ∧
        matchesBlockDigest b.page b.claimBlockDigest = true ∧ hasTxInPage b.page b.txHash = true ∧
        chainLinksTo b.claimBlockDigest b.anchorHeaders b.anchoredTip = true →
      matchesTxId b.witness b.txHash = true ∧ senderIsOwner b.witness b.owner = true ∧
        paysAmount b.witness (scheduledFee b.name) = true ∧ matchesTreasury b.witness = true) := by
  have htag : ∀ e e', validateClaimBundle b = .ok (some e) →
      validateClaimBundleLinear b.linear = .ok (some e') → e ∈ commonTags → e' ∈ commonTags →
      e = e' := by
    intro e e' hfull hlinear he _
    rw [validateClaimBundleLinear_of_common hfull he] at hlinear
    exact Option.some.inj (Except.ok.inj hlinear)
  rw [and_iff_left htag, validateClaimBundle_none, validateClaimBundleLinear_none]
  simp only [isValidName_true, nameCheck, feeCheck, witnessChecks, pageChecks,
    List.forall_mem_cons, List.not_mem_nil, IsEmpty.forall_iff, implies_true, and_true,
    decide_eq_true_eq]
  constructor
  · rintro halike ⟨hname, hfee, hpage⟩
    exact (halike.mp ⟨hname, hfee, hpage⟩).2.2.1
  · intro hwitness
    constructor
    · rintro ⟨hname, hfee, hpage⟩
      exact ⟨hname, hfee, hwitness ⟨hname, hfee, hpage⟩, hpage⟩
    · rintro ⟨hname, hfee, -, hpage⟩
      exact ⟨hname, hfee, hpage⟩

/-- A bundle in order whose transaction pays nothing to the treasury. -/
theorem validateClaimBundleLinear_unpaid :
    ¬((validateClaimBundleLinear (lowBundle 327680000 0).linear = .ok none ↔
        validateClaimBundle (lowBundle 327680000 0) = .ok none) ∧
      ∀ e e', validateClaimBundle (lowBundle 327680000 0) = .ok (some e) →
        validateClaimBundleLinear (lowBundle 327680000 0).linear = .ok (some e') →
        e ∈ commonTags → e' ∈ commonTags → e = e') := by
  rintro ⟨h, -⟩
  revert h
  decide

end NnsVerified.Kernel
