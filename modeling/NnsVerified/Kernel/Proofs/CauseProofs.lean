import NnsVerified.Kernel.Proofs.PokeProofs

/-!
# The nouns of causes

A poke is an untyped noun, which the mold of causes reads. The noun of a `%scan-block` is read back
as the block that it is made of.
-/

namespace NnsVerified.Kernel

open NnsVerified.Hoon NnsVerified.Library

variable {Acc Vesl : Type}

/-- A witness as a noun. -/
def NnsRawTxWitness.noun (w : NnsRawTxWitness) : Noun :=
  Noun.tuple (.atom w.txId) [.atom w.spenderPkh, .atom w.treasuryAmount, .atom w.outputLockRoot]

/-- A claim as a noun. -/
def NnsClaim.noun (c : NnsClaim) : Noun :=
  Noun.tuple (.atom c.name) [.atom c.owner, .atom c.fee, .atom c.txHash, c.witness.noun]

/-- The poke of `%scan-block`. -/
def ScanBlock.noun (b : ScanBlock) : Noun :=
  Noun.tuple (.atom (cord "scan-block")) [.atom b.parent, .atom b.height, .atom b.pageDigest,
    Noun.list (b.pageTxIds.map .atom), Noun.list (b.claims.map NnsClaim.noun)]

/-- The noun of a `%verify-accumulator-snapshot`. -/
def VerifySnapshot.noun (v : VerifySnapshot) : Noun :=
  Noun.tuple (.atom (cord "verify-accumulator-snapshot")) [.atom v.expectedRoot, .atom v.accJam,
    .atom v.entry.name, .atom v.entry.owner, .atom v.entry.txHash, .atom v.entry.claimHeight,
    .atom v.entry.blockDigest]

/-- The poke of `%prove-recursive-transition`. -/
def ProveTransition.noun (p : ProveTransition) : Noun :=
  Noun.tuple (.atom (cord "prove-recursive-transition")) [.atom p.prevProofJam,
    .atom p.prevSubjectJam, .atom p.prevFormulaJam, .atom p.pageDigest,
    Noun.list (p.pageTxIds.map .atom), Noun.list (p.claims.map NnsClaim.noun), p.blockProof]

/-- The noun of a `%validate-claim`. The witness is not nested in it. -/
def ClaimBundle.noun (b : ClaimBundle) : Noun :=
  Noun.tuple (.atom (cord "validate-claim")) [.atom b.name, .atom b.owner, .atom b.fee,
    .atom b.txHash, .atom b.claimBlockDigest, Noun.list (b.anchorHeaders.map AnchorHeader.noun),
    .atom b.page.digest, Noun.list (b.page.txIds.map .atom), .atom b.anchoredTip,
    .atom b.anchoredTipHeight, .atom b.witness.txId, .atom b.witness.spenderPkh,
    .atom b.witness.treasuryAmount, .atom b.witness.outputLockRoot]

/-- The noun of a `%prove-recursive-genesis`. -/
def proveGenesisNoun : Noun := .cell (.atom (cord "prove-recursive-genesis")) (.atom 0)

theorem clamList_map {α : Type} {item : Noun → Option α} {noun : α → Noun}
    (h : ∀ x, item (noun x) = some x) (xs : List α) :
    clamList item (Noun.list (xs.map noun)) = some xs := by
  refine clamList_list (List.forall₂_map_left_iff.mpr (List.forall₂_same.mpr ?_))
  intro x _
  exact h x

theorem clamClaim_noun (c : NnsClaim) : clamClaim c.noun = some c := rfl

theorem CauseTag.mem_all (g : CauseTag) : g ∈ CauseTag.all := by
  cases g with
  | vesl tag => cases tag <;> decide
  | _ => decide

/-- The texts of the tags differ, so that each is read back as its tag. -/
theorem ofAtom_text (g : CauseTag) : CauseTag.ofAtom (cord g.text) = some g := by
  have hnodup : (CauseTag.all.map fun g => cord g.text).Nodup := by decide
  exact find_cord hnodup g.mem_all

theorem softCause_tag (env : Env Acc Vesl) (g : CauseTag) (body : Noun) :
    softCause env (.cell (.atom (cord g.text)) body) = clamBody env g body := by
  rw [softCause, ofAtom_text]
  rfl

theorem softCause_verifyAccumulatorSnapshot (env : Env Acc Vesl) (v : VerifySnapshot) :
    softCause env v.noun = some (.verifyAccumulatorSnapshot v) :=
  softCause_tag env .verifyAccumulatorSnapshot _

theorem clamList_ids (ids : List Nat) : clamList clamAtom (Noun.list (ids.map .atom)) = some ids :=
  clamList_map clamAtom_atom _

theorem clamList_claims (claims : List NnsClaim) :
    clamList clamClaim (Noun.list (claims.map NnsClaim.noun)) = some claims :=
  clamList_map clamClaim_noun _

theorem softCause_scanBlock (env : Env Acc Vesl) (b : ScanBlock) :
    softCause env b.noun = some (.scanBlock b) := by
  refine (softCause_tag env .scanBlock _).trans ?_
  show ((clamList clamAtom (Noun.list _)).bind fun ids =>
    (clamList clamClaim (Noun.list _)).bind fun claims =>
      some (Cause.scanBlock ⟨b.parent, b.height, b.pageDigest, ids, claims⟩)) = _
  rw [clamList_ids, Option.bind_some, clamList_claims, Option.bind_some]

theorem softCause_proveTransition (env : Env Acc Vesl) (p : ProveTransition) :
    softCause env p.noun = some (.proveRecursiveTransition p) := by
  refine (softCause_tag env .proveRecursiveTransition _).trans ?_
  show ((clamList clamAtom (Noun.list _)).bind fun ids =>
    (clamList clamClaim (Noun.list _)).bind fun claims =>
      some (Cause.proveRecursiveTransition ⟨p.prevProofJam, p.prevSubjectJam, p.prevFormulaJam,
        p.pageDigest, ids, claims, p.blockProof⟩)) = _
  rw [clamList_ids, Option.bind_some, clamList_claims, Option.bind_some]

theorem clamAnchorHeader_noun (h : AnchorHeader) : clamAnchorHeader h.noun = some h := rfl

theorem clamList_headers (headers : List AnchorHeader) :
    clamList clamAnchorHeader (Noun.list (headers.map AnchorHeader.noun)) = some headers :=
  clamList_map clamAnchorHeader_noun _

theorem softCause_validateClaim (env : Env Acc Vesl) (b : ClaimBundle) :
    softCause env b.noun = some (.validateClaim b) := by
  refine (softCause_tag env .validateClaim _).trans ?_
  show ((clamList clamAnchorHeader (Noun.list _)).bind fun headers =>
    (clamList clamAtom (Noun.list _)).bind fun ids =>
      some (Cause.validateClaim ⟨b.name, b.owner, b.fee, b.txHash, b.claimBlockDigest, headers,
        ⟨b.page.digest, ids⟩, b.anchoredTip, b.anchoredTipHeight, b.witness⟩)) = _
  rw [clamList_headers, Option.bind_some, clamList_ids, Option.bind_some]

theorem softCause_proveGenesis (env : Env Acc Vesl) :
    softCause env proveGenesisNoun = some .proveRecursiveGenesis :=
  softCause_tag env .proveRecursiveGenesis _

theorem poke_scanBlock (env : Env Acc Vesl) (s : State Acc Vesl) (b : ScanBlock) :
    poke env s b.noun = scanBlock env s b :=
  poke_of_softCause s (softCause_scanBlock env b)

theorem acceptedBlock_of_error {env : Env Acc Vesl} {s : State Acc Vesl} {input : Noun} {e : Fault}
    (h : poke env s input = .error e) : acceptedBlock env s input = none := by
  unfold acceptedBlock
  rw [h]
  split
  · rename_i heq
    cases heq
  · rfl

/-- A block is accepted when its poke emits `%scan-block-done`. -/
theorem acceptedBlock_of_done {env : Env Acc Vesl} {s t : State Acc Vesl} {b : ScanBlock}
    {height digest root : Nat}
    (h : poke env s b.noun = .ok ([.scanBlockDone height digest root], t)) :
    acceptedBlock env s b.noun = some b := by
  unfold acceptedBlock
  rw [softCause_scanBlock, h]

/-- The block that the kernel accepts from the noun of a block is that block. -/
theorem acceptedBlock_noun {env : Env Acc Vesl} {s : State Acc Vesl} {b b' : ScanBlock}
    (h : acceptedBlock env s b.noun = some b') : b' = b := by
  unfold acceptedBlock at h
  rw [softCause_scanBlock] at h
  split at h
  · rename_i hcause _
    obtain rfl := Option.some.inj h
    exact (Cause.scanBlock.inj (Option.some.inj hcause)).symm
  · exact absurd h (by simp)

end NnsVerified.Kernel
