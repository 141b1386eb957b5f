import NnsVerified.Kernel.Proofs.TransitionProofs

/-!
# What the dry run reports

A trace formula that rejects its subject has the product `1`, while `+trace-succeeded` compares the
product with `[1 1]`, the formula of that product. The dry run reports a success on every product of
a trace formula, so its report is right where the formula accepts.
-/

namespace NnsVerified.Kernel

open NnsVerified.Hoon NnsVerified.Hoon.Noun

variable {Acc Vesl : Type} {env : Env Acc Vesl} {s t : State Acc Vesl} {effects : List Effect}

/-- The formula that a transition traces accepts its subject. That of a block without a claim only
compares a height with itself; that of a block with one asks for an atom other than `0` as the
previous proof, and for a claim without a tag or with one other than that of the first row. -/
def TransitionAccepts (env : Env Acc Vesl) (s : State Acc Vesl) (p : ProveTransition) : Prop :=
  p.claims = [] ∨ ∃ c key a, p.claims = [c] ∧ nameKey env c.name = .ok key ∧
    previousNoun env p.prevProofJam (s.recursiveProof.map fun rp => rp.1) = .ok (.atom a) ∧ a ≠ 0 ∧
    (key.d0 = 0 ∨ accListHeadKey (env.zBy.tap s.accumulator) ≠ key.d0)

/-! ## The verdict -/

theorem traceSucceeded_loob (b : Bool) : traceSucceeded (loob b) = true := by
  simp [traceSucceeded, loob]

/-- The verdict on the product of a formula is right exactly where the formula accepts. -/
theorem verdict_right_iff {subj form : Noun} {x ok : Bool} (h : Yields subj form (loob x))
    (hok : ok = true) : (ok = true ↔ Yields subj form (.atom 0)) ↔ x = true := by
  rw [iff_true_left hok, yields_zero_iff h]

theorem dryRun_loob {subj form : Noun} {x ok : Bool} (h : Yields subj form (loob x))
    (hdry : dryRun env subj form = .ok ok) : ok = true := by
  unfold dryRun at hdry
  obtain ⟨res, hres, hdry⟩ := bind_eq_ok hdry
  have hsettled : nock env.fuel subj form ≠ .error .hang := by
    intro hhang
    rw [hhang] at hres
    cases hres
  rw [h.nock hsettled, mule_ok] at hres
  obtain rfl := Except.ok.inj hres
  exact (Except.ok.inj hdry).symm.trans (traceSucceeded_loob x)

/-! ## The traced pairs -/

theorem yields_empty (prevH : Nat) (page : NounDigest) (wantH : Nat) (want : NounDigest) :
    Yields (emptyTransitionSubject prevH page wantH want) (transitionTraceFormulaEmpty wantH)
      (loob true) := by
  have hslot : slot (slotAxis 7) (emptyTransitionSubject prevH page wantH want)
      = some (.atom wantH) := slot_part (k := 6) rfl
  have hproduct := yields_traceEq hslot wantH
  rwa [decide_eq_true rfl] at hproduct

theorem proofLength_ne_zero {n : Noun} : proofLength n ≠ 0 ↔ ∃ a, n = .atom a ∧ a ≠ 0 := by
  cases n with
  | cell p q => simp [proofLength]
  | atom a => simp [proofLength, met_eq_zero_iff]

/-- The product of the formula that a transition traces. -/
theorem transitionInputs_yields {p : ProveTransition} {subj form : Noun}
    (h : transitionInputs env s p = .ok (subj, form)) :
    ∃ x : Bool, Yields subj form (loob x) ∧
      (x = true ↔ TransitionAccepts env s p) := by
  unfold transitionInputs at h
  obtain ⟨prevProof, hproof, h⟩ := bind_eq_ok h
  obtain ⟨prevSubj, -, h⟩ := bind_eq_ok h
  obtain ⟨prevForm, -, h⟩ := bind_eq_ok h
  rcases buildTransition_claims h with hnil | ⟨c, key, hclaims, hkey⟩
  · rw [hnil, buildTransition_empty] at h
    obtain ⟨rfl, rfl⟩ := Prod.mk.inj (Except.ok.inj h)
    exact ⟨true, yields_empty _ _ _ _, iff_of_true rfl (Or.inl hnil)⟩
  · rw [hclaims, buildTransition_one hkey] at h
    obtain ⟨rfl, rfl⟩ := Prod.mk.inj (Except.ok.inj h)
    refine ⟨_, yields_full _ _ _ _ _ _ _ _, ?_⟩
    rw [Bool.and_eq_true, decide_eq_true_iff, decide_eq_true_iff, proofLength_ne_zero]
    unfold TransitionAccepts
    rw [hclaims, hproof]
    constructor
    · rintro ⟨⟨a, rfl, ha⟩, htag⟩
      exact Or.inr ⟨c, key, a, rfl, hkey, rfl, ha, htag⟩
    · rintro (hnil | ⟨c', key', a, hc, hkey', ha, hpos, htag⟩)
      · cases hnil
      · obtain rfl := (List.cons.inj hc).1
        obtain rfl := Except.ok.inj (hkey.symm.trans hkey')
        exact ⟨⟨a, Except.ok.inj ha, hpos⟩, htag⟩

/-- What a `%prove-recursive-genesis` poke reports. -/
theorem genesis_report {input : Noun} {ok : Bool}
    (hcause : softCause env input = some .proveRecursiveGenesis)
    (hpoke : poke env s input = .ok (effects, t)) (hok : .genesisRecursiveDryRunOk ok ∈ effects) :
    dryRun env (buildGenesisRecursiveInputs nnsGenesisHeight 0).1
      (buildGenesisRecursiveInputs nnsGenesisHeight 0).2 = .ok ok := by
  rw [poke_of_softCause _ hcause] at hpoke
  obtain ⟨acc, dryOk, -, hdry, ⟨reason, rfl, -⟩ | ⟨proof, -, rfl, -⟩⟩ :=
    proveRecursiveGenesis_cases hpoke
  · obtain rfl : ok = dryOk := by simpa using hok
    exact hdry
  · obtain rfl : ok = dryOk := by simpa using hok
    exact hdry

/-- What a `%prove-recursive-transition` poke reports. -/
theorem transition_report {input : Noun} {p : ProveTransition} {ok : Bool}
    (hcause : softCause env input = some (.proveRecursiveTransition p))
    (hpoke : poke env s input = .ok (effects, t)) (hok : .recursiveTransitionDryRunOk ok ∈ effects) :
    ∃ subj form, transitionInputs env s p = .ok (subj, form) ∧ dryRun env subj form = .ok ok := by
  rw [poke_of_softCause _ hcause] at hpoke
  obtain ⟨subj, form, dryOk, hinputs, hdry, ⟨reason, -, rfl, -⟩ | ⟨proof, -, rfl, -⟩⟩ :=
    proveRecursiveTransition_cases hpoke
  · obtain rfl : ok = dryOk := by simpa using hok
    exact ⟨subj, form, hinputs, hdry⟩
  · obtain rfl : ok = dryOk := by simpa using hok
    exact ⟨subj, form, hinputs, hdry⟩

/-! ## What the verdict gets right -/

/-- The verdict on a specification without digests is right exactly where the formula accepts; the
report of a genesis proof is right, and that of a transition is right exactly where the formula that
it traces accepts. -/
theorem dryRun_right_iff (env : Env Acc Vesl) (s : State Acc Vesl) :
    (∀ (spec : List TraceConstraint) (subj : Noun), (∀ c ∈ spec, c.isDigest = false) →
      (∀ c ∈ spec, c.Fits subj) → ∃ product, Yields subj (compileTrace spec) product ∧
        ((traceSucceeded product = true ↔ product = .atom 0) ↔
          spec ≠ [] ∧ ∀ c ∈ spec, c.Holds subj)) ∧
    (∀ input effects t ok, softCause env input = some .proveRecursiveGenesis →
      poke env s input = .ok (effects, t) → .genesisRecursiveDryRunOk ok ∈ effects →
      (ok = true ↔ Yields (buildGenesisRecursiveInputs nnsGenesisHeight 0).1
        (buildGenesisRecursiveInputs nnsGenesisHeight 0).2 (.atom 0))) ∧
    ∀ input p effects t ok, softCause env input = some (.proveRecursiveTransition p) →
      poke env s input = .ok (effects, t) → .recursiveTransitionDryRunOk ok ∈ effects →
      ∃ subj form, transitionInputs env s p = .ok (subj, form) ∧
        ((ok = true ↔ Yields subj form (.atom 0)) ↔ TransitionAccepts env s p) := by
  refine ⟨?_, ?_, ?_⟩
  · intro spec subj hdigest hfits
    refine ⟨_, yields_compileTrace hfits, ?_⟩
    rw [iff_true_left (traceSucceeded_loob _)]
    have hzero : loob (traceAccepted subj spec) = .atom 0 ↔ traceAccepted subj spec = true := by
      simp [loob]
    rw [hzero, traceAccepted_iff]
    exact and_congr_right fun _ => and_iff_left hdigest
  · intro input effects t ok hcause hpoke hok
    have hyields := yields_genesis nnsGenesisHeight 0
    have htrue := dryRun_loob hyields (genesis_report hcause hpoke hok)
    exact (verdict_right_iff hyields htrue).mpr (by decide)
  · intro input p effects t ok hcause hpoke hok
    obtain ⟨subj, form, hinputs, hdry⟩ := transition_report hcause hpoke hok
    obtain ⟨x, hyields, haccepts⟩ := transitionInputs_yields hinputs
    refine ⟨subj, form, hinputs, ?_⟩
    rw [verdict_right_iff hyields (dryRun_loob hyields hdry)]
    exact haccepts

/-- The verdict is a success on a subject that the genesis formula rejects, and so is the report of a
transition that chains from the genesis proof, which is a cell. -/
theorem dryRun_accepts_rejected :
    (∃ spec subj product, (∀ c ∈ spec, c.isDigest = false) ∧ (∀ c ∈ spec, c.Fits subj) ∧
      Yields subj (compileTrace spec) product ∧ traceSucceeded product = true ∧ product ≠ .atom 0) ∧
    ∃ effects t subj form, poke provingEnv (runState provingEnv [proveGenesisNoun])
        (chainedTransition [paidClaim (cord "ab.nock") 7 9]).noun = .ok (effects, t) ∧
      .recursiveTransitionDryRunOk true ∈ effects ∧
      transitionInputs provingEnv (runState provingEnv [proveGenesisNoun])
        (chainedTransition [paidClaim (cord "ab.nock") 7 9]) = .ok (subj, form) ∧
      ¬Yields subj form (.atom 0) := by
  refine ⟨⟨genesisSpec, genesisSubject 0 0, .atom 1, by decide, genesis_fits 0 0,
    yields_genesis 0 0, by decide, by decide⟩, ?_⟩
  have hrun : ((poke provingEnv (runState provingEnv [proveGenesisNoun])
      (chainedTransition [paidClaim (cord "ab.nock") 7 9]).noun).toOption.map fun r =>
        decide (.recursiveTransitionDryRunOk true ∈ r.1)) = some true ∧
      (runState provingEnv [proveGenesisNoun]).recursiveProof.map (fun rp => rp.1)
        = some (.cell (.atom 1) (.atom 1)) := by
    decide +kernel
  obtain ⟨⟨effects, t⟩, hpoke, hok⟩ := Option.map_eq_some_iff.mp hrun.1
  rw [toOption_eq_some] at hpoke
  have hmem := of_decide_eq_true hok
  obtain ⟨subj, form, hinputs, -⟩ :=
    transition_report (softCause_proveTransition _ _) hpoke hmem
  refine ⟨effects, t, subj, form, hpoke, hmem, hinputs, fun hzero => ?_⟩
  obtain ⟨x, hyields, haccepts⟩ := transitionInputs_yields hinputs
  have hx : x = true := (yields_zero_iff hyields).mp hzero
  rcases haccepts.mp hx with hnil | ⟨c, key, a, -, -, hprev, -, -⟩
  · cases hnil
  · rw [hrun.2] at hprev
    cases hprev

end NnsVerified.Kernel
