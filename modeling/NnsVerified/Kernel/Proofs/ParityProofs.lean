import NnsVerified.Kernel.Parity
import NnsVerified.Kernel.Proofs.DryRunProofs
import NnsVerified.Kernel.Proofs.LabelProofs

/-!
# Trace formulas and host specifications

The genesis formula accepts what `+genesis-recursive-formula` accepts, and the formula of a block with
one claim what `+transition-spec` accepts, where the claim has no tag or one other than that of the
first row. The oracles that compare the two answer what the specification answers. The fold of claims
in `+transition-spec` returns the accumulator that it is given, so it is the scanner's only where the
scanner adds no row.
-/

namespace NnsVerified.Kernel

open NnsVerified.Hoon NnsVerified.Hoon.Noun NnsVerified.Library

variable {Acc Vesl : Type} {env : Env Acc Vesl} {acc : Acc}

/-! ## Specifications -/

theorem genesisRecursiveFormula_eq (hhas : has env acc nnsGenesisTldName = .ok true)
    (height digest : Nat) :
    genesisRecursiveFormula env acc height digest
      = .ok (decide (height = nnsGenesisHeight ∧ digest = 0)) := by
  unfold genesisRecursiveFormula
  rw [hhas, Bool.decide_and]
  rfl

theorem prevProofOkSpec_iff {prevProof : Noun} {prevH : Nat} :
    prevProofOkSpec prevProof prevH = true ↔ proofLength prevProof ≠ 0 ∧ 0 < prevH := by
  cases prevProof with
  | cell p q => simp [prevProofOkSpec, proofLength]
  | atom a => simp [prevProofOkSpec, proofLength, Nat.pos_iff_ne_zero]

section

variable (hh : env.HashLaws) (hm : env.MapLaws) (hb : env.zBy.Built NounDigest.Based acc)

include hh hm hb

/-- The accumulator that `+minimal-first-writer-wins` returns is the one that it was given. -/
theorem minimalFirstWriterWins_eq (height digest : Nat) (claims : List NnsClaim) :
    minimalFirstWriterWins env acc height digest claims = .ok acc := by
  induction claims with
  | nil => rfl
  | cons c t ih =>
    have hkey := keyOf_based hh c.name
    obtain ⟨acc', hput⟩ := hm.put_ok ⟨c.name, c.owner, c.txHash, height, digest⟩ hb hkey
    unfold minimalFirstWriterWins
    rw [nameKey_eq hh, ok_bind, hm.has_eq_view hb hkey, ok_bind]
    cases (env.zBy.view acc (keyOf env c.name)).isSome with
    | true => exact ih
    | false =>
      rw [if_neg (by simp), hput]
      exact ih

theorem transitionSpec_eq (prevProof : Noun) (prevH : Nat) (pag : NnsPageSummary)
    (claims : List NnsClaim) (wantH wantD : Nat) :
    transitionSpec env prevProof prevH acc pag claims wantH wantD
      = .ok (prevProofOkSpec prevProof prevH &&
          decide (wantH = prevH + 1 ∧ wantD = pag.digest)) := by
  unfold transitionSpec
  rw [minimalFirstWriterWins_eq hh hm hb]
  cases prevProofOkSpec prevProof prevH with
  | false => rfl
  | true =>
    by_cases hheight : wantH = prevH + 1
    · by_cases hdigest : wantD = pag.digest
      · simp [hheight, hdigest]
      · simp [hheight, hdigest]
    · simp [hheight]

/-- The specification of a transition as the kernel asks for it. -/
theorem transitionSpec_next (prevProof : Noun) (prevH : Nat) (pag : NnsPageSummary)
    (claims : List NnsClaim) :
    transitionSpec env prevProof prevH acc pag claims (prevH + 1) pag.digest
      = .ok (prevProofOkSpec prevProof prevH) := by
  rw [transitionSpec_eq hh hm hb]
  simp

end

/-! ## The fold of the specification -/

section

variable (hh : env.HashLaws) (hm : env.MapLaws) (hb : env.zBy.Built NounDigest.Based acc)

include hh hm hb

/-- On valid claims the scanner registers a row for each. -/
theorem claimScanner_valid {pag : NnsPageSummary} (height : Nat) {claims : List NnsClaim}
    (hvalid : ∀ c ∈ claims, validClaim pag c = .ok true) :
    ∃ scanned, claimScanner env acc pag height claims = .ok scanned ∧
      env.zBy.Built NounDigest.Based scanned ∧
      ∀ k, k.Based → env.zBy.view scanned k = registerAll (env.zBy.view acc)
        (claims.map fun c => (keyOf env c.name, claimEntry pag height c)) k := by
  have hall : claims.filter (fun c => ValidClaim pag c) = claims := by
    refine List.filter_eq_self.mpr fun c hc => ?_
    have hok := hvalid c hc
    rw [validClaim_eq] at hok
    exact Except.ok.inj hok
  obtain ⟨scanned, hok, hbuilt, hview⟩ := claimScanner_registers
    (fun _ name entry h => insert_spec hh hm h name entry) pag height claims hb
  rw [hall] at hview
  exact ⟨scanned, hok, hbuilt, hview⟩

end

/-- On valid claims, the fold of the specification has the rows of the scanner exactly when every
claim is for a name that is taken, so that the scanner adds no row either. -/
theorem minimalFirstWriterWins_rows_iff (hh : env.HashLaws) (hm : env.MapLaws)
    (hb : env.zBy.Built NounDigest.Based acc) (pag : NnsPageSummary) (height : Nat)
    (claims : List NnsClaim) (hvalid : ∀ c ∈ claims, validClaim pag c = .ok true) :
    ∃ folded scanned, minimalFirstWriterWins env acc height pag.digest claims = .ok folded ∧
      claimScanner env acc pag height claims = .ok scanned ∧
      ((∀ row, row ∈ env.zBy.tap folded ↔ row ∈ env.zBy.tap scanned) ↔
        ∀ c ∈ claims, has env acc c.name = .ok true) := by
  obtain ⟨scanned, hok, hbuilt, hview⟩ := claimScanner_valid hh hm hb height hvalid
  refine ⟨acc, scanned, minimalFirstWriterWins_eq hh hm hb height pag.digest claims, hok, ?_⟩
  have hhas : ∀ c : NnsClaim,
      has env acc c.name = .ok true ↔ (env.zBy.view acc (keyOf env c.name)).isSome := by
    intro c
    rw [has_eq hh hm hb, Except.ok.injEq]
  constructor
  · intro hrows c hc
    have hkey := keyOf_based hh c.name
    have hbinding : (keyOf env c.name, claimEntry pag height c) ∈
        claims.map fun c => (keyOf env c.name, claimEntry pag height c) :=
      List.mem_map.mpr ⟨c, hc, rfl⟩
    have hsome : (env.zBy.view scanned (keyOf env c.name)).isSome := by
      rw [hview _ hkey]
      exact registerAll_isSome hbinding
    obtain ⟨e, he⟩ := Option.isSome_iff_exists.mp hsome
    have hmem := (hrows _).mpr ((hm.mem_tap_iff hbuilt).mpr ⟨hkey, he⟩)
    have hheld := ((hm.mem_tap_iff hb).mp hmem).2
    exact (hhas c).mpr (Option.isSome_iff_exists.mpr ⟨e, hheld⟩)
  · intro hheld row
    -- the scanner adds nothing either
    have hsame := claimScanner_bound hh hm pag height hb fun c hc _ => (hhas c).mp (hheld c hc)
    rw [hok] at hsame
    rw [Except.ok.inj hsame]

/-- A claim of a free name: the scanner adds its row, the specification does not. -/
theorem minimalFirstWriterWins_drops_claim :
    validClaim ⟨66, [9]⟩ (paidClaim (cord "ab.nock") 7 9) = .ok true ∧
    ∃ folded scanned,
      minimalFirstWriterWins sampleEnv [] 5 66 [paidClaim (cord "ab.nock") 7 9] = .ok folded ∧
      claimScanner sampleEnv [] ⟨66, [9]⟩ 5 [paidClaim (cord "ab.nock") 7 9] = .ok scanned ∧
      ¬∀ row, row ∈ sampleEnv.zBy.tap folded ↔ row ∈ sampleEnv.zBy.tap scanned := by
  refine ⟨by decide +kernel, [], [(keyOf sampleEnv (cord "ab.nock"),
    claimEntry ⟨66, [9]⟩ 5 (paidClaim (cord "ab.nock") 7 9))], by decide +kernel, by decide +kernel,
    fun hrows => ?_⟩
  have hrow := (hrows _).mpr (List.mem_singleton.mpr rfl)
  cases hrow

/-- A claim of a name that is taken. -/
theorem minimalFirstWriterWins_rows_taken :
    ∃ seeded folded scanned, insert sampleEnv [] (cord "ab.nock") default = .ok seeded ∧
      minimalFirstWriterWins sampleEnv seeded 5 66 [paidClaim (cord "ab.nock") 7 9] = .ok folded ∧
      claimScanner sampleEnv seeded ⟨66, [9]⟩ 5 [paidClaim (cord "ab.nock") 7 9] = .ok scanned ∧
      ∀ row, row ∈ sampleEnv.zBy.tap folded ↔ row ∈ sampleEnv.zBy.tap scanned := by
  obtain ⟨seeded, hins, hb, hview⟩ := insert_spec sampleEnv_hashLaws sampleEnv_mapLaws
    (.nul : sampleEnv.zBy.Built NounDigest.Based []) (cord "ab.nock") default
  obtain ⟨folded, scanned, hfolded, hscanned, hrows⟩ :=
    minimalFirstWriterWins_rows_iff sampleEnv_hashLaws sampleEnv_mapLaws hb ⟨66, [9]⟩ 5
      [paidClaim (cord "ab.nock") 7 9] (by decide +kernel)
  refine ⟨seeded, folded, scanned, hins, hfolded, hscanned, hrows.mpr fun c hc => ?_⟩
  obtain rfl := List.mem_singleton.mp hc
  have hkey := keyOf_based sampleEnv_hashLaws (cord "ab.nock")
  rw [has_eq sampleEnv_hashLaws sampleEnv_mapLaws hb]
  show Except.ok (sampleEnv.zBy.view seeded (keyOf sampleEnv (cord "ab.nock"))).isSome = .ok true
  rw [hview _ hkey, register, if_pos rfl]
  simp

/-! ## Refinement -/

/-- The genesis formula and the formula of a block with one claim accept what their specifications
accept, the latter up to the tags. -/
theorem traceFormulas_refine_specs (hh : env.HashLaws) (hm : env.MapLaws) :
    (∀ (acc : Acc) (height digest : Nat), has env acc nnsGenesisTldName = .ok true →
      ∃ product, Yields (buildGenesisRecursiveInputs height digest).1
          (buildGenesisRecursiveInputs height digest).2 product ∧
        (product = .atom 0 ↔ genesisRecursiveFormula env acc height digest = .ok true)) ∧
    ∀ (prevProof : Noun) (prevH : Nat) (acc : Acc) (pag : NnsPageSummary) (c : NnsClaim)
      (block : Noun), env.zBy.Built NounDigest.Based acc → 0 < prevH →
      ∃ subj form product, buildRecursiveTransitionInputs env prevProof prevH acc pag [c] block
          pag.digest = .ok (subj, form) ∧
        Yields subj form product ∧
        (product = .atom 0 ↔
          transitionSpec env prevProof prevH acc pag [c] (prevH + 1) pag.digest = .ok true ∧
          ((keyOf env c.name).d0 = 0 ∨
            accListHeadKey (env.zBy.tap acc) ≠ (keyOf env c.name).d0)) := by
  have hloob : ∀ b : Bool, loob b = .atom 0 ↔ b = true := by simp [loob]
  constructor
  · intro acc height digest hhas
    refine ⟨_, yields_genesis height digest, ?_⟩
    rw [hloob, genesisRecursiveFormula_eq hhas, Except.ok.injEq]
  · intro prevProof prevH acc pag c block hb hpos
    refine ⟨_, _, _, buildTransition_single hh _ _ _ _ _ _ _, yields_full _ _ _ _ _ _ _ _, ?_⟩
    rw [hloob, transitionSpec_next hh hm hb, Except.ok.injEq, prevProofOkSpec_iff,
      Bool.and_eq_true, decide_eq_true_iff, decide_eq_true_iff, and_iff_left hpos]

/-- A transition of the sample kernel. -/
theorem traceFormulas_refine_specs_sample : ∃ subj form product,
    buildRecursiveTransitionInputs sampleEnv (.atom 1) nnsGenesisHeight [] ⟨66, [9]⟩
      [paidClaim (cord "ab.nock") 7 9] (.atom 0) 66 = .ok (subj, form) ∧
    Yields subj form product ∧
    (product = .atom 0 ↔
      transitionSpec sampleEnv (.atom 1) nnsGenesisHeight [] ⟨66, [9]⟩
        [paidClaim (cord "ab.nock") 7 9] (nnsGenesisHeight + 1) 66 = .ok true ∧
      ((keyOf sampleEnv (cord "ab.nock")).d0 = 0 ∨
        accListHeadKey [] ≠ (keyOf sampleEnv (cord "ab.nock")).d0)) :=
  (traceFormulas_refine_specs sampleEnv_hashLaws sampleEnv_mapLaws).2 (.atom 1) nnsGenesisHeight []
    ⟨66, [9]⟩ (paidClaim (cord "ab.nock") 7 9) (.atom 0) .nul (by decide)

/-! ## Oracles -/

/-- A check in front of a success answers what the check does. -/
theorem check_then_true {x y : Eval Bool} (hy : y = .ok true) :
    (do
      if !(← x) then return false
      y) = x := by
  rw [hy]
  cases x with
  | error e => rfl
  | ok b => cases b <;> rfl

section

variable (hfuel : traceBudget ≤ env.fuel)

include hfuel

/-- The dry run of a formula that fits the budget is a success, whatever its product. -/
theorem dryRun_true {subj form : Noun} {x : Bool} (h : Yields subj form (loob x))
    (hform : shallow traceBudget form = true) : dryRun env subj form = .ok true := by
  obtain ⟨ok, hok⟩ := dryRun_ok hfuel hform
  rw [hok, dryRun_loob h hok]

theorem parityGenesisTrace_eq (acc : Acc) (height digest : Nat) :
    parityGenesisTrace env acc height digest = genesisRecursiveFormula env acc height digest :=
  check_then_true (dryRun_true hfuel (yields_genesis height digest) rfl)

theorem parityTransitionEmpty_eq (prevH pageD : Nat) (acc : Acc) :
    parityTransitionEmpty env prevH pageD acc
      = transitionSpec env (.atom 1) prevH acc ⟨pageD, []⟩ [] (prevH + 1) pageD :=
  check_then_true (dryRun_true hfuel (yields_empty prevH _ (prevH + 1) _) rfl)

theorem parityTransitionFull_eq (hh : env.HashLaws) (prevProof : Noun) (prevH : Nat) (acc : Acc)
    (pag : NnsPageSummary) (c : NnsClaim) :
    parityTransitionFull env prevProof prevH acc pag [c]
      = transitionSpec env prevProof prevH acc pag [c] (prevH + 1) pag.digest := by
  unfold parityTransitionFull
  rw [buildTransition_single hh, ok_bind]
  exact check_then_true (dryRun_true hfuel (yields_full _ _ _ _ _ _ _ _) rfl)

end

end NnsVerified.Kernel
