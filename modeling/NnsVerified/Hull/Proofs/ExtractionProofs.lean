import NnsVerified.Hull.Proofs.EncodingProofs
import NnsVerified.Hull.Proofs.NameProofs
import NnsVerified.Hull.Proofs.OrderProofs
import NnsVerified.Kernel.Sample

/-!
# Extraction against the predicates of the kernel

A claim that the hull extracts from a transaction satisfies every predicate of the kernel, except
that its name may be invalid and its payment too low.
-/

namespace NnsVerified.Hull

open NnsVerified.Hoon NnsVerified.Library NnsVerified.Kernel

/-! ## What is extracted -/

variable {H Z L : Type} {c : Crates H Z L}

theorem noNul_trimEndNul (s : String) : NoNul (trimEndNul s) := fun h => getLast_trimEndNul h

/-- The end of a text that does not end in a NUL character does not either. -/
theorem NoNul.drop {s : String} (h : NoNul s) (n : Nat) :
    NoNul (String.ofList (s.toList.drop n)) := by
  intro hne
  simp only [String.toList_ofList] at hne ⊢
  rw [List.getLast_drop]
  exact h _

theorem noNul_claimNameFromPathInner {bytes : List UInt8} {name : String}
    (h : claimNameFromPathInner bytes = some name) : NoNul name := by
  unfold claimNameFromPathInner at h
  obtain ⟨s, -, h⟩ := Option.bind_eq_some_iff.mp h
  dsimp only at h
  split_ifs at h
  obtain rfl := Option.some.inj h
  exact (noNul_trimEndNul s).drop _

theorem noNul_asCord {n : Noun} {s : String} (h : asCord c n = .ok s) : NoNul s := by
  cases n with
  | cell p q => simp [asCord] at h
  | atom a =>
    unfold asCord at h
    cases htext : fromUtf8 (c.asNeBytes a) with
    | none => simp [htext] at h
    | some text =>
      simp only [htext, Except.ok.injEq] at h
      exact h ▸ noNul_trimEndNul text

theorem noNul_cordField {n : Noun} {s : String} (h : cordField c n = .ok s) : NoNul s := by
  have hleaf : ∀ leaf, (asCord c leaf).mapError (fun e => s!"claim tuple field is not utf8: {e}")
      = .ok s → NoNul s := by
    intro leaf h
    cases hcord : asCord c leaf with
    | error e => simp [hcord, Except.mapError] at h
    | ok text =>
      simp only [hcord, Except.mapError, Except.ok.injEq] at h
      exact h ▸ noNul_asCord hcord
  cases n with
  | atom a => exact hleaf _ h
  | cell p q =>
    unfold cordField at h
    by_cases htail : (asU64 c q).toOption ≠ some 0
    · simp [isAtom, uncons, htail, throw, throwThe, MonadExceptOf.throw, bind, Except.bind] at h
    · simp only [isAtom, uncons, Bool.false_eq_true, if_false, ok_bind, htail] at h
      exact hleaf p h

theorem noNul_fromWalletPackedBlobWire {wire : List UInt8} {note : ClaimNoteV1}
    (h : fromWalletPackedBlobWire c wire = .ok note) : NoNul note.name := by
  unfold fromWalletPackedBlobWire at h
  cases hpath : claimNameFromPathInner ((unpackWalletBlobJam c wire).toOption.getD wire) with
  | some name =>
    simp only [hpath] at h
    obtain rfl := Except.ok.inj h
    exact noNul_claimNameFromPathInner hpath
  | none =>
    simp only [hpath] at h
    cases hroot : c.cueFromBytes ((unpackWalletBlobJam c wire).toOption.getD wire) with
    | none => simp [hroot, throw, throwThe, MonadExceptOf.throw] at h
    | some root =>
      simp only [hroot] at h
      obtain ⟨⟨name, rest⟩, -, h⟩ := bind_eq_ok h
      obtain ⟨⟨owner, txHash⟩, -, h⟩ := bind_eq_ok h
      obtain ⟨name', hname, h⟩ := bind_eq_ok h
      obtain ⟨owner', -, h⟩ := bind_eq_ok h
      obtain ⟨txHash', -, h⟩ := bind_eq_ok h
      obtain rfl := Except.ok.inj h
      exact noNul_cordField hname

theorem noNul_fromNoteData {nd : NoteData} {note : ClaimNoteV1} (h : fromNoteData c nd = .ok note) :
    NoNul note.name := by
  unfold fromNoteData at h
  cases hbytes : c.findOpaqueBytesEntry nd claimNoteBlobEntryKey with
  | ok wire =>
    simp only [hbytes] at h
    exact noNul_fromWalletPackedBlobWire h
  | error e =>
    simp only [hbytes] at h
    obtain ⟨entry, -, h⟩ := bind_eq_ok h
    exact noNul_fromWalletPackedBlobWire h

/-! ## Owners -/

variable {details : TransactionDetails}

/-- The owner of a claim stands behind the transaction: as a signer, or where no signer is listed,
as the name of a note that was spent. -/
def Spends (details : TransactionDetails) (owner : String) : Prop :=
  owner ≠ "" ∧ ((∃ i ∈ details.inputs, owner ∈ i.signerPubkeyB58) ∨
    (∀ i ∈ details.inputs, i.signerPubkeyB58 = []) ∧
      ∃ i ∈ details.inputs, trim i.noteNameB58 = owner)

theorem trim_of_mem_dedup {xs : List String} {s : String}
    (h : s ∈ ((xs.map trim).filter fun s => !s.isEmpty).dedup) : trim s = s := by
  obtain ⟨x, -, rfl⟩ := List.mem_map.mp (List.mem_filter.mp (List.mem_dedup.mp h)).1
  exact trim_trim x

/-- An inferred owner is trimmed, wherever it was found. -/
theorem trim_inferClaimOwnerForClaim {note : ClaimNoteV1} {owner : String}
    (h : inferClaimOwnerForClaim details note = some owner) : trim owner = owner := by
  unfold inferClaimOwnerForClaim at h
  dsimp only at h
  split_ifs at h with hnote
  · obtain rfl := Option.some.inj h
    exact trim_trim note.owner
  · split at h
    · rename_i signer hsigners
      obtain rfl := Option.some.inj h
      exact trim_of_mem_dedup (hsigners ▸ List.mem_singleton_self signer)
    · exact absurd h (by simp)
    · split at h
      · rename_i name hnames
        obtain rfl := Option.some.inj h
        have hmem : name ∈ (((details.inputs.map fun i => i.noteNameB58).map trim).filter
            fun s => !s.isEmpty).dedup := by
          rw [List.map_map]
          exact hnames ▸ List.mem_singleton_self name
        exact trim_of_mem_dedup hmem
      · exact absurd h (by simp)

variable [DecidableEq H] {id : List UInt8} {p : ClaimCandidate}

theorem claimWitnessFromTransaction_spec {owner : String} {witness : ClaimWitness}
    (htrim : trim owner = owner)
    (h : claimWitnessFromTransaction c details id owner = some witness) :
    Spends details owner ∧ witness = ⟨id, utf8 owner, sumTreasuryOutputsV1 c details,
      treasuryLockRootB58⟩ := by
  unfold claimWitnessFromTransaction at h
  simp only [htrim] at h
  by_cases hempty : owner.isEmpty = true
  · simp [hempty] at h
  · have hne : owner ≠ "" := by simpa using hempty
    rw [if_neg hempty] at h
    by_cases hsigners : (details.inputs.flatMap fun i => i.signerPubkeyB58) = []
    · simp only [hsigners, List.isEmpty_nil, if_true] at h
      split_ifs at h with howner
      have hnote : ∃ i ∈ details.inputs, trim i.noteNameB58 = owner := by simpa using howner
      exact ⟨⟨hne, Or.inr ⟨List.flatMap_eq_nil_iff.mp hsigners, hnote⟩⟩, (Option.some.inj h).symm⟩
    · simp only [List.isEmpty_iff, hsigners, if_false] at h
      split_ifs at h with howner
      have hsigner : ∃ i ∈ details.inputs, owner ∈ i.signerPubkeyB58 := by simpa using howner
      exact ⟨⟨hne, Or.inl hsigner⟩, (Option.some.inj h).symm⟩

/-! ## Claims -/

/-- What holds of every claim that is extracted from a transaction whose id is `id`. -/
structure Extracted (c : Crates H Z L) (details : TransactionDetails) (id : List UInt8)
    (p : ClaimCandidate) : Prop where
  noNul : NoNul p.name
  spends : Spends details p.owner
  fee : p.fee = feeForName p.name
  txHash : p.txHash = id
  witness : p.witness = ⟨id, utf8 p.owner, sumTreasuryOutputsV1 c details, treasuryLockRootB58⟩

/-- One output: it is skipped, or its claim is extracted. -/
theorem claimOfOutput_spec (hid : base58HashToAtomBytes c (trim details.txId) = .ok id)
    (output : TransactionOutput) : ∃ claim, claimOfOutput c details output = .ok claim ∧
      ∀ p ∈ claim, Extracted c details id p := by
  have hskip : ∀ p ∈ (none : Option ClaimCandidate), Extracted c details id p := by simp
  unfold claimOfOutput
  cases output.noteData with
  | none => exact ⟨none, rfl, hskip⟩
  | some noteData =>
    cases hnote : fromNoteData c noteData with
    | error e => exact ⟨none, by simp only [hnote], hskip⟩
    | ok note =>
      simp only [hnote]
      by_cases htx : (if (trim note.txHash).isEmpty then trim details.txId else trim note.txHash)
          ≠ trim details.txId
      · rw [if_pos htx]
        exact ⟨none, rfl, hskip⟩
      · rw [if_neg htx, not_not.mp htx, hid, ok_bind, ok_bind]
        cases howner : inferClaimOwnerForClaim details note with
        | none => exact ⟨none, rfl, hskip⟩
        | some owner =>
          dsimp only
          cases hwitness : claimWitnessFromTransaction c details id owner with
          | none => exact ⟨none, rfl, hskip⟩
          | some witness =>
            have htrim := trim_inferClaimOwnerForClaim howner
            obtain ⟨hspends, hwitness⟩ := claimWitnessFromTransaction_spec htrim hwitness
            refine ⟨_, rfl, fun p hp => ?_⟩
            obtain rfl := Option.mem_some_iff.mp hp
            exact ⟨noNul_fromNoteData hnote, hspends, rfl, rfl, hwitness⟩

theorem claimsOfOutputs_spec (hid : base58HashToAtomBytes c (trim details.txId) = .ok id)
    (outputs : List TransactionOutput) : ∃ claims, claimsOfOutputs c details outputs = .ok claims ∧
      ∀ p ∈ claims, Extracted c details id p := by
  induction outputs with
  | nil => exact ⟨[], rfl, by simp⟩
  | cons output outputs ih =>
    obtain ⟨claim, hclaim, hp⟩ := claimOfOutput_spec hid output
    obtain ⟨claims, hclaims, hps⟩ := ih
    refine ⟨claim.toList ++ claims, ?_, fun p hmem => ?_⟩
    · rw [claimsOfOutputs, hclaim, ok_bind, hclaims]
      rfl
    · rcases List.mem_append.mp hmem with hmem | hmem
      · exact hp p (Option.mem_toList.mp hmem)
      · exact hps p hmem

/-! ## The predicates of the kernel -/

/-- The predicates of `valid-claim` that need no more than the extraction. -/
theorem Extracted.predicates (h : Extracted c details id p) {pag : NnsPageSummary}
    (hpage : leValue id ∈ pag.txIds) :
    feeOfLength (stemLength (rip 3 p.toClaim.name)) ≤ p.toClaim.fee ∧
      hasTxInPage pag p.toClaim.txHash = true ∧
      matchesTxId p.toClaim.witness p.toClaim.txHash = true ∧
      senderIsOwner p.toClaim.witness p.toClaim.owner = true ∧
      matchesTreasury p.toClaim.witness = true := by
  obtain ⟨hnul, -, hfee, htx, hwitness⟩ := h
  refine ⟨?_, (hasTxInList_iff _ _).mpr ?_, ?_, ?_, ?_⟩
  · show feeOfLength (stemLength (rip 3 (cord p.name))) ≤ p.fee.toNat
    rw [hfee]
    exact kernelFee_le hnul
  · show leValue p.txHash ∈ pag.txIds
    rwa [htx]
  all_goals simp [matchesTxId, senderIsOwner, matchesTreasury, ClaimCandidate.toClaim, hwitness, htx,
    cord, treasuryLockRootB58, treasuryLockRoot]

/-- The payment is compared with the fee of the hull, which the claim carries. -/
theorem Extracted.paysAmount_iff (h : Extracted c details id p) :
    paysAmount p.toClaim.witness p.toClaim.fee = true ↔
      feeForName p.name ≤ sumTreasuryOutputsV1 c details := by
  obtain ⟨-, -, hfee, -, hwitness⟩ := h
  simp [paysAmount, ClaimCandidate.toClaim, hwitness, hfee, UInt64.le_iff_toNat_le]

theorem Extracted.validClaim_iff (h : Extracted c details id p) {pag : NnsPageSummary}
    (hpage : leValue id ∈ pag.txIds) :
    validClaim pag p.toClaim = .ok true ↔
      Kernel.isValidName p.toClaim.name = .ok true ∧
        feeForName p.name ≤ sumTreasuryOutputsV1 c details := by
  obtain ⟨hfee, htx, htxId, howner, htreasury⟩ := h.predicates hpage
  rw [validClaim_eq, isValidName_eq, Except.ok.injEq, Except.ok.injEq, decide_eq_true_iff,
    decide_eq_true_iff, ← h.paysAmount_iff]
  unfold ValidClaim
  constructor
  · rintro ⟨hname, -, -, -, -, hpays, -⟩
    exact ⟨hname, hpays⟩
  · rintro ⟨hname, hpays⟩
    exact ⟨hname, hfee, htx, htxId, howner, hpays, htreasury⟩

/-- Extraction by the hull and validation by the kernel agree: whichever block a claim is sent in,
as long as it lists the transaction, the kernel accepts it exactly if its name is valid and its
payment covers the fee of the hull. -/
theorem extraction_agrees (hn : c.NounLaws) {details : TransactionDetails} {id : List UInt8}
    (hid : base58HashToAtomBytes c (trim details.txId) = .ok id) :
    ∃ claims, extractClaimsFromTransaction c details = .ok claims ∧ ∀ p ∈ claims,
      Spends details p.owner ∧
      ∀ (Acc Vesl : Type) (env : Env Acc Vesl) (parent : List UInt8) (height : UInt64)
        (pageDigest : List UInt8) (pageTxIds : List (List UInt8)) (batch : List ClaimCandidate),
        id ∈ pageTxIds →
        ∃ block, softCause env (buildScanBlockPoke c parent height pageDigest pageTxIds batch)
            = some (.scanBlock block) ∧ block.claims = batch.map ClaimCandidate.toClaim ∧
          (validClaim block.page p.toClaim = .ok true ↔
            Kernel.isValidName (cord p.name) = .ok true ∧
              feeForName p.name ≤ sumTreasuryOutputsV1 c details) ∧
          (∃ fee, Kernel.feeForName (cord p.name) = .ok fee ∧ fee ≤ p.toClaim.fee) ∧
          hasTxInPage block.page p.toClaim.txHash = true ∧
          matchesTxId p.toClaim.witness p.toClaim.txHash = true ∧
          senderIsOwner p.toClaim.witness p.toClaim.owner = true ∧
          matchesTreasury p.toClaim.witness = true := by
  obtain ⟨claims, hclaims, hps⟩ := claimsOfOutputs_spec hid details.outputs
  refine ⟨claims, hclaims, fun p hp => ⟨(hps p hp).spends, ?_⟩⟩
  intro Acc Vesl env parent height pageDigest pageTxIds batch hlisted
  set block := toScanBlock parent height pageDigest pageTxIds batch with hblock
  have hpage : leValue id ∈ block.page.txIds := List.mem_map_of_mem hlisted
  have hread : softCause env (buildScanBlockPoke c parent height pageDigest pageTxIds batch)
      = some (.scanBlock block) := by
    rw [buildScanBlockPoke_eq hn]
    exact softCause_scanBlock env block
  obtain ⟨hfee, hpredicates⟩ := (hps p hp).predicates hpage
  exact ⟨block, hread, rfl, (hps p hp).validClaim_iff hpage, ⟨_, feeForName_eq _, hfee⟩,
    hpredicates⟩

/-- The claim of `a.nock` by the only signer of a transaction, which pays its fee. -/
def paidClaim : ClaimCandidate where
  name := "a.nock"
  owner := "eve"
  fee := 327680000
  txHash := leBytes 40 (cord "T1")
  witness := ⟨leBytes 40 (cord "T1"), utf8 "eve", 327680000, treasuryLockRootB58⟩

theorem extraction_agrees_paid :
    extractClaimsFromTransaction sampleCrates (claimTransaction "T1" "eve" "nns/v1/claim/a.nock")
        = .ok [paidClaim] ∧
      ∃ block, softCause sampleEnv (buildScanBlockPoke sampleCrates [] 63000 []
          [leBytes 40 (cord "T1")] [paidClaim]) = some (.scanBlock block) ∧
        block.claims = [paidClaim.toClaim] ∧
        validClaim block.page paidClaim.toClaim = .ok true := by
  have hextract : extractClaimsFromTransaction sampleCrates
      (claimTransaction "T1" "eve" "nns/v1/claim/a.nock") = .ok [paidClaim] := by decide
  have hid : base58HashToAtomBytes sampleCrates
      (trim (claimTransaction "T1" "eve" "nns/v1/claim/a.nock").txId)
      = .ok (leBytes 40 (cord "T1")) := by decide
  have hname : Kernel.isValidName (cord paidClaim.name) = .ok true := by decide
  have hpaid : feeForName paidClaim.name ≤ sumTreasuryOutputsV1 sampleCrates
      (claimTransaction "T1" "eve" "nns/v1/claim/a.nock") := by decide
  obtain ⟨claims, hclaims, hps⟩ := extraction_agrees sampleCrates_nounLaws hid
  obtain rfl : claims = [paidClaim] := Except.ok.inj (hclaims.symm.trans hextract)
  obtain ⟨block, hread, hblock, hvalid, -⟩ := (hps paidClaim (List.mem_singleton_self _)).2 _ _
    sampleEnv [] 63000 [] [leBytes 40 (cord "T1")] [paidClaim] (List.mem_singleton_self _)
  exact ⟨hextract, block, hread, hblock, hvalid.mpr ⟨hname, hpaid⟩⟩

end NnsVerified.Hull
