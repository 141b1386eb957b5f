import NnsVerified.Hull.Calls
import NnsVerified.Hull.Proofs.BuilderProofs
import NnsVerified.Hull.Proofs.ProofChainProofs
import NnsVerified.Kernel.Proofs.InStarkProofs

/-!
# Calls about one claim

The hull can ask the kernel four things about the bundle of a claim: to validate it, whether its
headers are linked, whether its transaction is in its page, and for a proof that carries the
verdict. The answers fit together, and no question changes the registry or the cursor.
-/

namespace NnsVerified.Hull

open NnsVerified.Hoon NnsVerified.Library NnsVerified.Kernel

variable {H Z L Acc Vesl : Type} {c : Crates H Z L} {env : Env Acc Vesl} {s : State Acc Vesl}

/-! ## Pokes -/

theorem headersNoun_eq (hn : c.NounLaws) (headers : List AnchorHeader) : headersNoun c headers
    = Noun.list ((headers.map AnchorHeader.toHeader).map Kernel.AnchorHeader.noun) := by
  have hheader : ∀ h : AnchorHeader, Noun.tuple (c.makeAtomIn h.digest)
      [c.atomFromU64 h.height, c.makeAtomIn h.parent] = h.toHeader.noun := by
    intro h
    rw [hn.makeAtomIn_eq, hn.makeAtomIn_eq, hn.atomFromU64_eq]
    rfl
  rw [List.map_map]
  exact foldr_cell _ (fun h => h.toHeader.noun) hheader headers

theorem txIdsNoun_eq (hn : c.NounLaws) (ids : List (List UInt8)) :
    txIdsNoun c ids = Noun.list ((ids.map leValue).map .atom) := by
  rw [List.map_map]
  exact foldr_cell c.makeAtomIn (fun id => .atom (leValue id)) hn.makeAtomIn_eq ids

/-- The question whether the headers of a bundle are linked. -/
def ClaimBundle.linkPoke (c : Crates H Z L) (bundle : ClaimBundle) : Noun :=
  buildVerifyChainLinkPoke c bundle.claimBlockDigest bundle.anchorHeaders bundle.anchoredTip

/-- The question whether the transaction of a bundle is in its page. -/
def ClaimBundle.pagePoke (c : Crates H Z L) (bundle : ClaimBundle) : Noun :=
  buildVerifyTxInPagePoke c bundle.pageDigest bundle.pageTxIds bundle.txHash

theorem ClaimBundle.linkPoke_eq (hn : c.NounLaws) (bundle : ClaimBundle) :
    bundle.linkPoke c = chainLinkNoun bundle.toBundle.claimBlockDigest
      bundle.toBundle.anchorHeaders bundle.toBundle.anchoredTip := by
  unfold ClaimBundle.linkPoke buildVerifyChainLinkPoke
  rw [headersNoun_eq hn, hn.makeTagIn_eq, hn.makeAtomIn_eq, hn.makeAtomIn_eq]
  rfl

theorem ClaimBundle.pagePoke_eq (hn : c.NounLaws) (bundle : ClaimBundle) :
    bundle.pagePoke c = txInPageNoun bundle.toBundle.page.digest bundle.toBundle.page.txIds
      bundle.toBundle.txHash := by
  unfold ClaimBundle.pagePoke buildVerifyTxInPagePoke
  rw [txIdsNoun_eq hn, hn.makeTagIn_eq, hn.makeAtomIn_eq, hn.makeAtomIn_eq]
  rfl

theorem buildProveClaimInStarkPoke_eq (hn : c.NounLaws) (bundle : ClaimBundle) :
    buildProveClaimInStarkPoke c bundle = bundle.toBundle.linear.causeNoun := by
  unfold buildProveClaimInStarkPoke
  rw [headersNoun_eq hn, txIdsNoun_eq hn]
  simp only [hn.makeTagIn_eq, hn.makeCordIn_eq, hn.makeAtomIn_eq, hn.atomFromU64_eq]
  rfl

/-! ## Answers -/

theorem atomText_atom (a : Nat) : atomText c (.atom a) = (asCord c (.atom a)).toOption := by
  unfold atomText asCord
  show (fromUtf8 (c.asNeBytes a)).map trimEndNul = _
  cases h : fromUtf8 (c.asNeBytes a) <;> simp [h, Except.toOption]

theorem noNul_text (e : ValidationError) : NoNul e.text := by
  cases e <;> simp [NoNul, ValidationError.text]

theorem atomText_text (hn : c.NounLaws) (e : ValidationError) :
    atomText c (.atom (cord e.text)) = some e.text := by
  rw [atomText_atom, asCord_cord hn (noNul_text e)]
  rfl

/-- The verdict as `%validate-claim` answers it. -/
def ValidateClaimResult.ofVerdict : Option ValidationError → ValidateClaimResult
  | none => .ok
  | some e => .error e.text

/-- The verdict as a proof carries it. -/
def InStarkValidation.ofVerdict : Option ValidationError → InStarkValidation
  | none => .ok
  | some e => .rejected e.text

theorem validateClaimResult_ok (hn : c.NounLaws) :
    validateClaimResult c Effect.validateClaimOk.noun = some .ok := by
  have htag : effectTag c Effect.validateClaimOk.noun = some "validate-claim-ok" :=
    effectTag_tagged hn (by simp [NoNul]) _
  unfold validateClaimResult
  rw [htag, Option.bind_eq_bind, Option.bind_some, if_pos rfl]

theorem validateClaimResult_error (hn : c.NounLaws) (e : ValidationError) :
    validateClaimResult c (Effect.validateClaimError e).noun = some (.error e.text) := by
  have htag : effectTag c (Effect.validateClaimError e).noun = some "validate-claim-error" :=
    effectTag_tagged hn (by simp [NoNul]) _
  unfold validateClaimResult
  rw [htag, Option.bind_eq_bind, Option.bind_some, if_neg (by decide), if_pos rfl]
  show (atomText c (.atom (cord e.text))).bind _ = _
  rw [atomText_text hn, Option.bind_some]

/-- The product of a proof is read as the verdict that it is the noun of. -/
theorem claimInStarkProof_verdict {w : BlobCrates H Z L} (hn : w.toCrates.NounLaws)
    (v : Option ValidationError) (proof : Noun) :
    claimInStarkProof w (Effect.claimInStarkProof (verdictNoun v) proof).noun
      = some ⟨.ofVerdict v, w.slabJam proof⟩ := by
  have htag : effectTag w.toCrates (Effect.claimInStarkProof (verdictNoun v) proof).noun
      = some "claim-in-stark-proof" :=
    effectTag_tagged hn (by simp [NoNul]) _
  unfold claimInStarkProof
  rw [htag, Option.bind_eq_bind, Option.bind_some, if_neg (by simp)]
  cases v with
  | none =>
    show ((asU64 w.toCrates (.atom 0)).toOption).bind _ = _
    rw [asU64_atom hn (by norm_num)]
    rfl
  | some e =>
    show ((asU64 w.toCrates (.atom 1)).toOption).bind _ = _
    rw [asU64_atom hn (by norm_num)]
    show ((atomText w.toCrates (.atom (cord e.text))).bind fun s =>
      some (⟨.rejected s, w.slabJam proof⟩ : ClaimInStarkProof)) = _
    rw [atomText_text hn]
    rfl

theorem claimInStarkProof_of_ne {w : BlobCrates H Z L} {effect : Noun} {tag : String}
    (h : effectTag w.toCrates effect = some tag) (hne : tag ≠ "claim-in-stark-proof") :
    claimInStarkProof w effect = none := by
  unfold claimInStarkProof
  rw [h, Option.bind_eq_bind, Option.bind_some, if_pos hne]
  rfl

/-! ## Agreement -/

/-- The effects of a poke as the hull receives them; of a poke that crashed it receives none. -/
def callKernel (env : Env Acc Vesl) (s : State Acc Vesl) (input : Noun) : List Noun :=
  match poke env s input with
  | .ok (effects, _) => effects.map Effect.noun
  | .error _ => []

theorem callKernel_ok {input : Noun} {effects : List Effect} {t : State Acc Vesl}
    (h : poke env s input = .ok (effects, t)) :
    callKernel env s input = effects.map Effect.noun := by
  unfold callKernel
  rw [h]

theorem validate_answer (hn : c.NounLaws) (env : Env Acc Vesl)
    (s : State Acc Vesl) (bundle : ClaimBundle) :
    firstValidateClaimResult c (callKernel env s (buildValidateClaimPoke c bundle))
        = some (.ofVerdict (firstFailing (fullChecks bundle.toBundle))) ∧
      nextState env s (buildValidateClaimPoke c bundle) = s := by
  have hpoke : poke env s (buildValidateClaimPoke c bundle) = validateClaim s bundle.toBundle := by
    rw [buildValidateClaimPoke_eq hn]
    exact poke_of_softCause s (softCause_validateClaim env _)
  unfold validateClaim at hpoke
  rw [validateClaimBundle_eq, ok_bind] at hpoke
  cases hv : firstFailing (fullChecks bundle.toBundle) with
  | none =>
    rw [hv] at hpoke
    refine ⟨?_, nextState_of_ok hpoke⟩
    rw [callKernel_ok hpoke]
    simp [firstValidateClaimResult, validateClaimResult_ok hn, ValidateClaimResult.ofVerdict]
  | some e =>
    rw [hv] at hpoke
    refine ⟨?_, nextState_of_ok hpoke⟩
    rw [callKernel_ok hpoke]
    simp [firstValidateClaimResult, validateClaimResult_error hn, ValidateClaimResult.ofVerdict]

theorem chainLink_answer (hn : c.NounLaws) (env : Env Acc Vesl) (s : State Acc Vesl)
    (bundle : ClaimBundle) :
    firstChainLinkResult c (callKernel env s (bundle.linkPoke c))
        = some (chainLinksTo bundle.toBundle.claimBlockDigest bundle.toBundle.anchorHeaders
          bundle.toBundle.anchoredTip) ∧
      nextState env s (bundle.linkPoke c) = s := by
  rw [bundle.linkPoke_eq hn]
  have hpoke := poke_of_softCause s (softCause_verifyChainLink env
    bundle.toBundle.claimBlockDigest bundle.toBundle.anchorHeaders bundle.toBundle.anchoredTip)
  refine ⟨?_, nextState_of_ok hpoke⟩
  rw [callKernel_ok hpoke]
  simp only [firstChainLinkResult, List.map_cons, List.map_nil, List.findSome?_singleton]
  exact effectLoob_tagged hn (by simp [NoNul]) _

theorem txInPage_answer (hn : c.NounLaws) (env : Env Acc Vesl) (s : State Acc Vesl)
    (bundle : ClaimBundle) :
    firstTxInPageResult c (callKernel env s (bundle.pagePoke c))
        = some (hasTxInPage bundle.toBundle.page bundle.toBundle.txHash) ∧
      nextState env s (bundle.pagePoke c) = s := by
  rw [bundle.pagePoke_eq hn]
  have hpoke := poke_of_softCause s (softCause_verifyTxInPage env
    bundle.toBundle.page.digest bundle.toBundle.page.txIds bundle.toBundle.txHash)
  refine ⟨?_, nextState_of_ok hpoke⟩
  rw [callKernel_ok hpoke]
  simp only [firstTxInPageResult, List.map_cons, List.map_nil, List.findSome?_singleton]
  exact effectLoob_tagged hn (by simp [NoNul]) _

/-- A proof that the hull reads carries the verdict of the linear validator, where the arm of the
compiled core computes it. -/
theorem inStark_answer {w : BlobCrates H Z L} (hn : w.toCrates.NounLaws) {bundle : ClaimBundle}
    (h : CompiledValidator env bundle.toBundle.linear) {p : ClaimInStarkProof}
    (hp : firstClaimInStarkProof w
      (callKernel env s (buildProveClaimInStarkPoke w.toCrates bundle)) = some p) :
    p.validation = .ofVerdict (firstFailing (linearChecks bundle.toBundle)) := by
  rw [buildProveClaimInStarkPoke_eq hn] at hp
  have hcause := softCause_proveClaimInStark env bundle.toBundle.linear
  have hpoke : poke env s bundle.toBundle.linear.causeNoun
      = proveClaimInStark env s bundle.toBundle.linear := poke_of_softCause s hcause
  unfold callKernel at hp
  cases hrun : proveClaimInStark env s bundle.toBundle.linear with
  | error e =>
    rw [hpoke, hrun] at hp
    cases hp
  | ok r =>
    obtain ⟨effects, t⟩ := r
    rw [hpoke, hrun] at hp
    rcases proveClaimInStark_product h (validateClaimBundleLinear_eq _) hrun with
      ⟨reason, rfl⟩ | ⟨proof, rfl⟩
    · -- a failed attempt leaves no proof to read
      have hnone : claimInStarkProof w (Effect.proveFailed reason).noun = none :=
        claimInStarkProof_of_ne (effectTag_tagged hn (by simp [NoNul]) _) (by simp)
      simp [firstClaimInStarkProof, hnone] at hp
    · simp only [firstClaimInStarkProof, List.map_cons, List.map_nil, List.findSome?_singleton,
        claimInStarkProof_verdict hn, Option.some.injEq] at hp
      rw [← hp]

/-! ### The verdicts -/

/-- The tags of the full validator that the linear one cannot answer. -/
def witnessTags : List ValidationError :=
  [.witnessTxIdMismatch, .witnessSenderMismatch, .witnessUnderpaid, .witnessWrongTreasury]

theorem linear_verdict {b : Kernel.ClaimBundle}
    (h : ∀ e, firstFailing (fullChecks b) = some e → e ∉ witnessTags) :
    firstFailing (linearChecks b) = firstFailing (fullChecks b) := by
  cases hv : firstFailing (fullChecks b) with
  | none =>
    rw [firstFailing_eq_none] at hv ⊢
    exact fun c hc => hv c ((linearChecks_sublist b).subset hc)
  | some e =>
    have htag : e ∈ (fullChecks b).map Prod.snd := mem_map_of_firstFailing hv
    refine firstFailing_of_sublist (linearChecks_sublist b) (nodup_fullChecks b) hv ?_
    have hne := h e hv
    simp only [fullChecks, linearChecks, nameCheck, feeCheck, witnessChecks, pageChecks,
      witnessTags, List.map_cons, List.map_append, List.map_nil, List.mem_cons, List.mem_append,
      List.not_mem_nil, or_false, not_or] at htag hne ⊢
    tauto

theorem page_verdict {b : Kernel.ClaimBundle} (h : firstFailing (linearChecks b) = none) :
    chainLinksTo b.claimBlockDigest b.anchorHeaders b.anchoredTip = true ∧
      hasTxInPage b.page b.txHash = true := by
  have hall := firstFailing_eq_none.mp h
  simp only [linearChecks, pageChecks, List.forall_mem_cons] at hall
  obtain ⟨-, -, -, hpage, hchain, -⟩ := hall
  exact ⟨hchain, hpage⟩

theorem refusal_verdict {b : Kernel.ClaimBundle} :
    (firstFailing (fullChecks b) = some .chainBroken →
        chainLinksTo b.claimBlockDigest b.anchorHeaders b.anchoredTip = false) ∧
      (firstFailing (fullChecks b) = some .txNotInPage → hasTxInPage b.page b.txHash = false) := by
  constructor <;> intro h <;>
    simpa [fullChecks, nameCheck, feeCheck, witnessChecks, pageChecks]
      using exists_of_firstFailing h

/-- A request for a proof keeps the registry and the cursor. -/
theorem inStark_keeps (hn : c.NounLaws) (env : Env Acc Vesl) (s : State Acc Vesl)
    (bundle : ClaimBundle) :
    let t := nextState env s (buildProveClaimInStarkPoke c bundle)
    t.accumulator = s.accumulator ∧ t.lastProvedHeight = s.lastProvedHeight ∧
      t.lastProvedDigest = s.lastProvedDigest := by
  rw [buildProveClaimInStarkPoke_eq hn]
  refine nextState_rule (P := fun t : State Acc Vesl => t.accumulator = s.accumulator ∧
    t.lastProvedHeight = s.lastProvedHeight ∧ t.lastProvedDigest = s.lastProvedDigest)
    ⟨rfl, rfl, rfl⟩ fun effects t hpoke => ?_
  rw [poke_of_softCause s (softCause_proveClaimInStark env bundle.toBundle.linear)] at hpoke
  have hstep := (proveClaimInStark_step hpoke).1
  cases hstep with
  | same _ => exact ⟨rfl, rfl, rfl⟩
  | proved _ _ _ => exact ⟨rfl, rfl, rfl⟩

/-- The four calls about one bundle, in any state of the kernel. The validator passes only a bundle
whose headers are linked and whose transaction is in its page, and its tags for these two are what
the calls about them answer. Where the arm of the compiled core computes the linear verdict, a proof
carries the verdict of the validator, except that it does not look at the payment witness. Only the
request for a proof changes the state, and not its registry or its cursor. -/
theorem claim_calls_agree {w : BlobCrates H Z L} (hn : w.toCrates.NounLaws) (env : Env Acc Vesl)
    (s : State Acc Vesl) (bundle : ClaimBundle) :
    ∃ v linked paged,
      firstValidateClaimResult w.toCrates
        (callKernel env s (buildValidateClaimPoke w.toCrates bundle)) = some (.ofVerdict v) ∧
      firstChainLinkResult w.toCrates (callKernel env s (bundle.linkPoke w.toCrates))
        = some linked ∧
      firstTxInPageResult w.toCrates (callKernel env s (bundle.pagePoke w.toCrates))
        = some paged ∧
      (v = none → linked = true ∧ paged = true) ∧
      (v = some .chainBroken → linked = false) ∧ (v = some .txNotInPage → paged = false) ∧
      (CompiledValidator env bundle.toBundle.linear →
        ∀ p, firstClaimInStarkProof w
            (callKernel env s (buildProveClaimInStarkPoke w.toCrates bundle)) = some p →
          ((∀ e, v = some e → e ∉ witnessTags) → p.validation = .ofVerdict v) ∧
          (p.validation = .ok → linked = true ∧ paged = true)) ∧
      (∀ input ∈ [buildValidateClaimPoke w.toCrates bundle, bundle.linkPoke w.toCrates,
        bundle.pagePoke w.toCrates], nextState env s input = s) ∧
      let t := nextState env s (buildProveClaimInStarkPoke w.toCrates bundle)
      t.accumulator = s.accumulator ∧ t.lastProvedHeight = s.lastProvedHeight ∧
        t.lastProvedDigest = s.lastProvedDigest := by
  obtain ⟨hv, hvs⟩ := validate_answer hn env s bundle
  obtain ⟨hl, hls⟩ := chainLink_answer hn env s bundle
  obtain ⟨hp, hps⟩ := txInPage_answer hn env s bundle
  refine ⟨_, _, _, hv, hl, hp, fun hnone => page_verdict ?_, refusal_verdict.1, refusal_verdict.2,
    fun hcompiled p hproof => ?_, by simp [hvs, hls, hps], inStark_keeps hn env s bundle⟩
  · rw [linear_verdict (by simp [hnone]), hnone]
  · have hvalidation := inStark_answer hn hcompiled hproof
    refine ⟨fun htags => ?_, fun hok => page_verdict ?_⟩
    · rw [hvalidation, linear_verdict htags]
    · rw [hok] at hvalidation
      cases hlinear : firstFailing (linearChecks bundle.toBundle) with
      | none => rfl
      | some e =>
        rw [hlinear] at hvalidation
        cases hvalidation

/-- A bundle on a block with one transaction, which is the tip, that pays nothing. -/
def unpaidBundle : ClaimBundle where
  name := "ab.nock"
  owner := "eve"
  fee := 327680000
  txHash := [9]
  claimBlockDigest := [66]
  anchorHeaders := []
  pageDigest := [66]
  pageTxIds := [[9]]
  anchoredTip := [66]
  anchoredTipHeight := 63001
  witness := ⟨[9], [7], 0, treasuryLockRoot⟩

/-- A kernel whose prover succeeds and whose compiled validator passes every bundle. -/
def passEnv : Env (List (NnsNameKey × NnsAccumulatorEntry)) Unit :=
  { sureEnv.toEnv with
    npCore := .cell (.cell (.atom 1) (Noun.tuple (.cell (.atom 1) (verdictNoun none))
      [.atom 0, .atom 0])) (.atom 0)
    validatorArmAxis := 2 }

theorem passEnv_arm : slot passEnv.validatorArmAxis passEnv.npCore
    = some (.cell (.atom 1) (.cell (.cell (.atom 1) (verdictNoun none))
      (.cell (.atom 0) (.atom 0)))) := by
  simp [slot, passEnv, Noun.tuple]

theorem passEnv_compiled : CompiledValidator passEnv unpaidBundle.toBundle.linear where
  computes := by
    refine ⟨_, .cell (.atom 1) (verdictNoun none), .atom 0, .atom 0, passEnv_arm,
      yields_const_iff.mpr rfl, fun v hv => yields_const_iff.mpr ?_⟩
    have hpass : validateClaimBundleLinear unpaidBundle.toBundle.linear = .ok none := by decide
    rw [hpass] at hv
    rw [← Except.ok.inj hv]

/-- The bundle that pays nothing: the validator refuses it, and the proof carries a pass. -/
theorem claim_calls_agree_unpaid : ∃ v linked paged p,
    firstValidateClaimResult sampleCrates (callKernel passEnv (fresh passEnv)
      (buildValidateClaimPoke sampleCrates unpaidBundle)) = some (.ofVerdict v) ∧
    firstClaimInStarkProof sampleBlobCrates (callKernel passEnv (fresh passEnv)
      (buildProveClaimInStarkPoke sampleCrates unpaidBundle)) = some p ∧
    (v = none → linked = true ∧ paged = true) ∧
    ((∀ e, v = some e → e ∉ witnessTags) → p.validation = .ofVerdict v) ∧
    (p.validation = .ok → linked = true ∧ paged = true) := by
  have hsome : (firstClaimInStarkProof sampleBlobCrates (callKernel passEnv (fresh passEnv)
      (buildProveClaimInStarkPoke sampleCrates unpaidBundle))).isSome = true := by
    decide +kernel
  obtain ⟨p, hp⟩ := Option.isSome_iff_exists.mp hsome
  obtain ⟨v, linked, paged, hv, -, -, hok, -, -, hproof, -⟩ := claim_calls_agree
    sampleBlobCrates_nounLaws passEnv (fresh passEnv) unpaidBundle
  obtain ⟨htags, hlinks⟩ := hproof passEnv_compiled p hp
  exact ⟨v, linked, paged, p, hv, hp, hok, htags, hlinks⟩

end NnsVerified.Hull
