import NnsVerified.Hull.Proofs.LookupProofs

/-!
# Poke builders against the mold of causes

Every poke that the hull builds is read by the kernel as the cause of its tag, field by field, with
texts and bytes as little-endian atoms and lists in their order.
-/

namespace NnsVerified.Hull

open NnsVerified.Hoon NnsVerified.Library NnsVerified.Kernel

variable {H Z L : Type} {c : Crates H Z L}

/-- The header that the kernel reads. -/
def AnchorHeader.toHeader (h : AnchorHeader) : Kernel.AnchorHeader :=
  ⟨leValue h.digest, h.height.toNat, leValue h.parent⟩

/-- The bundle that the kernel reads. -/
def ClaimBundle.toBundle (b : ClaimBundle) : Kernel.ClaimBundle where
  name := cord b.name
  owner := cord b.owner
  fee := b.fee.toNat
  txHash := leValue b.txHash
  claimBlockDigest := leValue b.claimBlockDigest
  anchorHeaders := b.anchorHeaders.map AnchorHeader.toHeader
  page := ⟨leValue b.pageDigest, b.pageTxIds.map leValue⟩
  anchoredTip := leValue b.anchoredTip
  anchoredTipHeight := b.anchoredTipHeight.toNat
  witness := {
    txId := leValue b.witness.txId
    spenderPkh := leValue b.witness.spenderPkh
    treasuryAmount := b.witness.treasuryAmount.toNat
    outputLockRoot := cord b.witness.outputLockRoot }

theorem buildValidateClaimPoke_eq (hn : c.NounLaws) (b : ClaimBundle) :
    buildValidateClaimPoke c b = b.toBundle.noun := by
  have hheader : ∀ h : AnchorHeader, Noun.tuple (c.makeAtomIn h.digest)
      [c.atomFromU64 h.height, c.makeAtomIn h.parent] = h.toHeader.noun := by
    intro h
    rw [hn.makeAtomIn_eq, hn.makeAtomIn_eq, hn.atomFromU64_eq]
    rfl
  have hheaders := foldr_cell _ (fun h => h.toHeader.noun) hheader b.anchorHeaders
  have hids := foldr_cell c.makeAtomIn (fun id => .atom (leValue id)) hn.makeAtomIn_eq b.pageTxIds
  unfold buildValidateClaimPoke
  rw [hheaders, hids]
  simp only [hn.makeTagIn_eq, hn.makeCordIn_eq, hn.makeAtomIn_eq, hn.atomFromU64_eq,
    Kernel.ClaimBundle.noun, ClaimBundle.toBundle, List.map_map]
  rfl

/-- The four builders against the mold: each poke is accepted, as the cause of its tag with the
arguments as fields. The transition builder asserts that the ids of its claims have 40 bytes. -/
theorem pokes_fit_causes {Acc Vesl : Type} (hn : c.NounLaws) (env : Env Acc Vesl) :
    (∀ (parent : List UInt8) (height : UInt64) (pageDigest : List UInt8)
        (pageTxIds : List (List UInt8)) (claims : List ClaimCandidate),
      softCause env (buildScanBlockPoke c parent height pageDigest pageTxIds claims)
        = some (.scanBlock {
            parent := leValue parent
            height := height.toNat
            pageDigest := leValue pageDigest
            pageTxIds := pageTxIds.map leValue
            claims := claims.map ClaimCandidate.toClaim })) ∧
      (∀ bundle : ClaimBundle,
        softCause env (buildValidateClaimPoke c bundle) = some (.validateClaim bundle.toBundle)) ∧
      (∀ (proof subj form pageDigest : List UInt8) (pageTxIds : List (List UInt8))
          (claims : List ClaimCandidate) (blockProof : List UInt8),
        (∀ p ∈ claims, p.txHash.length = 40 ∧ p.witness.txId.length = 40) →
          ∃ input, assertedProveRecursiveTransitionPoke c proof subj form pageDigest pageTxIds claims
              blockProof = .ok input ∧
            softCause env input = some (.proveRecursiveTransition {
              prevProofJam := leValue proof
              prevSubjectJam := leValue subj
              prevFormulaJam := leValue form
              pageDigest := leValue pageDigest
              pageTxIds := pageTxIds.map leValue
              claims := claims.map ClaimCandidate.toClaim
              blockProof := .atom (leValue blockProof) })) ∧
      ∀ (root accJam : List UInt8) (name owner : String) (txHash : List UInt8) (height : UInt64)
          (digest : List UInt8),
        softCause env (buildVerifyAccumulatorSnapshotPoke c root accJam name owner txHash height digest)
          = some (.verifyAccumulatorSnapshot {
              expectedRoot := leValue root
              accJam := leValue accJam
              entry := {
                name := cord name
                owner := cord owner
                txHash := leValue txHash
                claimHeight := height.toNat
                blockDigest := leValue digest } }) := by
  refine ⟨fun parent height pageDigest pageTxIds claims => ?_, fun bundle => ?_,
    fun proof subj form pageDigest pageTxIds claims blockProof hids => ?_,
    fun root accJam name owner txHash height digest => ?_⟩
  · rw [buildScanBlockPoke_eq hn, softCause_scanBlock]
    rfl
  · rw [buildValidateClaimPoke_eq hn, softCause_validateClaim]
  · have hassert : (claims.all fun p => p.txHash.length = 40 && p.witness.txId.length = 40) = true :=
      List.all_eq_true.mpr fun p hp => by simp [hids p hp]
    refine ⟨_, if_pos hassert, ?_⟩
    rw [buildProveRecursiveTransitionPoke_eq hn, softCause_proveTransition]
    rfl
  · rw [buildVerifyAccumulatorSnapshotPoke_eq hn, softCause_verifyAccumulatorSnapshot]

/-- An id of forty bytes. -/
def wideId (b : UInt8) : List UInt8 := b :: List.replicate 39 0

/-- Two claims whose ids are that wide. -/
def wideClaims : List ClaimCandidate :=
  [⟨"a.nock", "eve", 327680000, wideId 1, ⟨wideId 1, utf8 "eve", 327680000, treasuryLockRootB58⟩⟩,
    ⟨"bcdef.nock", "bob", 32768000, wideId 2,
      ⟨wideId 2, utf8 "bob", 40000000, treasuryLockRootB58⟩⟩]

/-- The claims that the kernel reads from them. -/
def readClaims : List NnsClaim :=
  [⟨cord "a.nock", cord "eve", 327680000, 1, ⟨1, cord "eve", 327680000, cord treasuryLockRootB58⟩⟩,
    ⟨cord "bcdef.nock", cord "bob", 32768000, 2,
      ⟨2, cord "bob", 40000000, cord treasuryLockRootB58⟩⟩]

theorem pokes_fit_causes_claims :
    softCause sampleEnv
        (buildScanBlockPoke sampleCrates [7] 63000 [0, 1] [wideId 1, wideId 2] wideClaims)
      = some (.scanBlock ⟨7, 63000, 256, [1, 2], readClaims⟩) ∧
    (∃ input, assertedProveRecursiveTransitionPoke sampleCrates [5] [6] [] [0, 1]
        [wideId 1, wideId 2] wideClaims [] = .ok input ∧
      softCause sampleEnv input = some (.proveRecursiveTransition
        ⟨5, 6, 0, 256, [1, 2], readClaims, .atom 0⟩)) ∧
    softCause sampleEnv
        (buildVerifyAccumulatorSnapshotPoke sampleCrates [4] [3] "a.nock" "eve" [1] 63000 [0, 1])
      = some (.verifyAccumulatorSnapshot ⟨4, 3, ⟨cord "a.nock", cord "eve", 1, 63000, 256⟩⟩) := by
  obtain ⟨hscan, -, htransition, hsnapshot⟩ := pokes_fit_causes sampleCrates_nounLaws sampleEnv
  have hids : [wideId 1, wideId 2].map leValue = [1, 2] := by decide
  have hread : wideClaims.map ClaimCandidate.toClaim = readClaims := by decide
  obtain ⟨input, hbuilt, hcause⟩ := htransition [5] [6] [] [0, 1] [wideId 1, wideId 2] wideClaims []
    (by decide)
  refine ⟨?_, ⟨input, hbuilt, ?_⟩, hsnapshot [4] [3] "a.nock" "eve" [1] 63000 [0, 1]⟩
  · rw [hscan, hids, hread]
    rfl
  · rw [hcause, hids, hread]
    rfl

end NnsVerified.Hull
