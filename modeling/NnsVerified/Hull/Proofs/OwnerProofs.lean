import NnsVerified.Hull.Proofs.ExtractionProofs

/-!
# Inferred owners

The owner of a claim path is inferred from the signers of the transaction, and then checked against
them. Inference trims the signers and leaves out the blank ones; the check takes them as they are
listed. So an inferred owner passes the check exactly when nobody is listed as a signer, or when
some signer is listed without whitespace around it.
-/

namespace NnsVerified.Hull

open NnsVerified.Hoon NnsVerified.Library

/-- The signers that the inputs of a transaction list. -/
def listedSigners (details : TransactionDetails) : List String :=
  details.inputs.flatMap fun i => i.signerPubkeyB58

/-- The signers that inference tells apart. -/
def distinctSigners (details : TransactionDetails) : List String :=
  (((listedSigners details).map trim).filter fun s => !s.isEmpty).dedup

/-- The spent notes that inference tells apart. -/
def distinctNames (details : TransactionDetails) : List String :=
  ((details.inputs.map fun i => trim i.noteNameB58).filter fun s => !s.isEmpty).dedup

variable {details : TransactionDetails}

theorem mem_distinctSigners {s : String} :
    s ∈ distinctSigners details ↔ s ≠ "" ∧ ∃ x ∈ listedSigners details, trim x = s := by
  simp only [distinctSigners, List.mem_dedup, List.mem_filter, List.mem_map, Bool.not_eq_true',
    String.isEmpty_eq_false_iff]
  exact and_comm

theorem mem_distinctNames {s : String} :
    s ∈ distinctNames details ↔ s ≠ "" ∧ ∃ i ∈ details.inputs, trim i.noteNameB58 = s := by
  simp only [distinctNames, List.mem_dedup, List.mem_filter, List.mem_map, Bool.not_eq_true',
    String.isEmpty_eq_false_iff]
  exact and_comm

/-- Where the note names no owner, the only signer is the owner, and where there is no signer, the
only spent note is. -/
theorem inferClaimOwnerForClaim_blank {note : ClaimNoteV1} {o : String} (hblank : trim note.owner = "")
    (h : inferClaimOwnerForClaim details note = some o) :
    distinctSigners details = [o] ∨ distinctSigners details = [] ∧ distinctNames details = [o] := by
  unfold inferClaimOwnerForClaim at h
  dsimp only at h
  rw [hblank, if_neg (by simp)] at h
  split at h
  · rename_i signer hsigners
    obtain rfl := Option.some.inj h
    exact Or.inl hsigners
  · cases h
  · rename_i hsigners
    split at h
    · rename_i name hnames
      obtain rfl := Option.some.inj h
      exact Or.inr ⟨hsigners, hnames⟩
    · cases h

variable {H Z L : Type} {c : Crates H Z L} [DecidableEq H]

/-- The check of a trimmed owner: it yields a witness for exactly the owners that spend. -/
theorem claimWitnessFromTransaction_iff {owner : String} (txHash : List UInt8)
    (htrim : trim owner = owner) :
    (∃ witness, claimWitnessFromTransaction c details txHash owner = some witness ∧
      witness.spenderPkh = utf8 owner) ↔ Spends details owner := by
  constructor
  · rintro ⟨witness, h, -⟩
    exact (claimWitnessFromTransaction_spec htrim h).1
  · rintro ⟨hne, howner⟩
    have hok : (if (listedSigners details).isEmpty
        then details.inputs.any fun i => trim i.noteNameB58 = owner
        else decide (owner ∈ listedSigners details)) = true := by
      rcases howner with ⟨i, hi, hsigner⟩ | ⟨hnone, hname⟩
      · have hmem : owner ∈ listedSigners details := List.mem_flatMap.mpr ⟨i, hi, hsigner⟩
        have hlisted : (listedSigners details).isEmpty = false := by
          simpa using List.ne_nil_of_mem hmem
        simp [hlisted, hmem]
      · have hlisted : listedSigners details = [] := List.flatMap_eq_nil_iff.mpr hnone
        simpa [hlisted] using hname
    refine ⟨⟨txHash, utf8 owner, sumTreasuryOutputsV1 c details, treasuryLockRootB58⟩, ?_, rfl⟩
    unfold claimWitnessFromTransaction
    simp only [htrim]
    rw [if_neg (by simpa using hne)]
    refine if_neg ?_
    rw [Bool.not_eq_true, Bool.not_eq_false']
    exact hok

/-- An only signer spends when it is listed as inference has it. -/
theorem spends_of_signer {o : String} (h : distinctSigners details = [o]) :
    Spends details o ↔ ∃ s ∈ listedSigners details, s ≠ "" ∧ trim s = s := by
  obtain ⟨hne, x, hx, htrim⟩ := mem_distinctSigners.mp (h ▸ List.mem_singleton_self o)
  constructor
  · rintro ⟨-, ⟨i, hi, hsigner⟩ | ⟨hnone, -⟩⟩
    · exact ⟨o, List.mem_flatMap.mpr ⟨i, hi, hsigner⟩, hne, by rw [← htrim, trim_trim]⟩
    · have hlisted : listedSigners details = [] := List.flatMap_eq_nil_iff.mpr hnone
      rw [hlisted] at hx
      exact absurd hx List.not_mem_nil
  · rintro ⟨s, hs, hsne, hstrim⟩
    have hmem : s ∈ distinctSigners details := mem_distinctSigners.mpr ⟨hsne, s, hs, hstrim⟩
    rw [h] at hmem
    obtain rfl := List.mem_singleton.mp hmem
    exact ⟨hne, Or.inl (List.mem_flatMap.mp hs)⟩

/-- An only spent note spends when nobody is listed as a signer. -/
theorem spends_of_name {o : String} (h : distinctSigners details = [])
    (hnames : distinctNames details = [o]) : Spends details o ↔ listedSigners details = [] := by
  obtain ⟨hne, i, hi, htrim⟩ := mem_distinctNames.mp (hnames ▸ List.mem_singleton_self o)
  constructor
  · rintro ⟨-, ⟨j, hj, hsigner⟩ | ⟨hnone, -⟩⟩
    · have hmem : o ∈ distinctSigners details :=
        mem_distinctSigners.mpr ⟨hne, o, List.mem_flatMap.mpr ⟨j, hj, hsigner⟩,
          by rw [← htrim, trim_trim]⟩
      rw [h] at hmem
      exact absurd hmem List.not_mem_nil
    · exact List.flatMap_eq_nil_iff.mpr hnone
  · intro hlisted
    exact ⟨hne, Or.inr ⟨List.flatMap_eq_nil_iff.mp hlisted, i, hi, htrim⟩⟩

/-- An inferred owner passes the check exactly when no signer is listed, or when some signer is
listed that is not blank and has no whitespace around it. -/
theorem inferred_owner_passes_iff {note : ClaimNoteV1} {o : String} (txHash : List UInt8)
    (hblank : trim note.owner = "") (h : inferClaimOwnerForClaim details note = some o) :
    (∃ witness, claimWitnessFromTransaction c details txHash o = some witness ∧
        witness.spenderPkh = utf8 o) ↔
      (details.inputs.flatMap fun i => i.signerPubkeyB58) = [] ∨
        ∃ s ∈ details.inputs.flatMap fun i => i.signerPubkeyB58, s ≠ "" ∧ trim s = s := by
  rw [claimWitnessFromTransaction_iff txHash (trim_inferClaimOwnerForClaim h)]
  change Spends details o ↔
    listedSigners details = [] ∨ ∃ s ∈ listedSigners details, s ≠ "" ∧ trim s = s
  rcases inferClaimOwnerForClaim_blank hblank h with hsigner | ⟨hnone, hname⟩
  · have hlisted : listedSigners details ≠ [] := by
      obtain ⟨-, x, hx, -⟩ := mem_distinctSigners.mp (hsigner ▸ List.mem_singleton_self o)
      exact List.ne_nil_of_mem hx
    rw [spends_of_signer hsigner, or_iff_right hlisted]
  · have hblank : ¬∃ s ∈ listedSigners details, s ≠ "" ∧ trim s = s := by
      rintro ⟨s, hs, hne, htrim⟩
      have hmem := mem_distinctSigners.mpr ⟨hne, s, hs, htrim⟩
      rw [hnone] at hmem
      exact absurd hmem List.not_mem_nil
    rw [spends_of_name hnone hname, or_iff_left hblank]

/-- A transaction whose only input is signed by `signer`. -/
def signedTransaction (signer : String) : TransactionDetails :=
  ⟨"T1", [⟨"note", [signer]⟩], []⟩

theorem inferred_owner_passes_alice :
    trim "" = "" ∧ inferClaimOwnerForClaim (signedTransaction "alice") ⟨"a.nock", "", ""⟩
        = some "alice" ∧
      ∃ witness, claimWitnessFromTransaction sampleCrates (signedTransaction "alice") [] "alice"
          = some witness ∧ witness.spenderPkh = utf8 "alice" := by
  have hblank : trim "" = "" := by decide
  have howner : inferClaimOwnerForClaim (signedTransaction "alice") ⟨"a.nock", "", ""⟩
      = some "alice" := by decide
  have hpass := @inferred_owner_passes_iff (signedTransaction "alice") _ _ _ sampleCrates _
    ⟨"a.nock", "", ""⟩ "alice" [] hblank howner
  exact ⟨hblank, howner, hpass.mpr (Or.inr ⟨"alice", by decide, by decide, by decide⟩)⟩

/-- A signer listed with a blank in front is inferred as the owner, and fails the check. So does
the spent note of a transaction whose only listed signer is blank. -/
theorem inferred_owner_padded_fails :
    inferClaimOwnerForClaim (signedTransaction " alice") ⟨"a.nock", "", ""⟩ = some "alice" ∧
      claimWitnessFromTransaction sampleCrates (signedTransaction " alice") [] "alice" = none ∧
      inferClaimOwnerForClaim (signedTransaction " ") ⟨"a.nock", "", ""⟩ = some "note" ∧
      claimWitnessFromTransaction sampleCrates (signedTransaction " ") [] "note" = none := by
  decide

end NnsVerified.Hull
