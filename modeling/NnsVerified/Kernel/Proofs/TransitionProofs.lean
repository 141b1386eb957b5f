import NnsVerified.Kernel.Proofs.CauseProofs
import NnsVerified.Kernel.Proofs.RunProofs
import NnsVerified.Kernel.Proofs.TraceProofs
import NnsVerified.Kernel.Sample

/-!
# `prove-recursive-transition`: the traced pair and its product

The products of the trace formulas on the subjects that the builders make, and what a
`%prove-recursive-transition` poke stores. A previous proof that is a cell is measured as length `0`,
which the full formula rejects with the product `1`; the handler proves the pair all the same.
-/

namespace NnsVerified.Kernel

open NnsVerified.Hoon NnsVerified.Hoon.Noun NnsVerified.Library

/-! ## Trace formulas -/

/-- The full formula accepts exactly where the previous proof has a length and the claim has no tag
or one other than that of the accumulator. -/
theorem yields_full (proofLen prevH : Nat) (page : NounDigest) (accTag candTag : Nat) (block : Noun)
    (wantH : Nat) (want : NounDigest) :
    Yields (fullTransitionSubject proofLen prevH page accTag candTag block wantH want)
      (transitionTraceFormulaFull prevH wantH)
      (loob (decide (proofLen ≠ 0) && decide (candTag = 0 ∨ accTag ≠ candTag))) := by
  set subj := fullTransitionSubject proofLen prevH page accTag candTag block wantH want
  have hlen : slot (slotAxis 1) subj = some (.atom proofLen) := slot_part (k := 0) rfl
  have hprev : slot (slotAxis 2) subj = some (.atom prevH) := slot_part (k := 1) rfl
  have hacc : slot (slotAxis 8) subj = some (.atom accTag) := slot_part (k := 7) rfl
  have hcand : slot (slotAxis 9) subj = some (.atom candTag) := slot_part (k := 8) rfl
  have hproof : Yields subj (traceNonzero (slotAxis 1)) (loob (proofLen ≠ 0)) := by
    simpa using yields_traceNonzero hlen
  have heq : Yields subj (traceEq (tracePick (slotAxis 2)) (traceLit prevH)) (loob true) := by
    simpa using yields_traceEq hprev prevH
  have hfww : Yields subj (traceFww (slotAxis 9) (slotAxis 8))
      (loob (candTag = 0 ∨ accTag ≠ candTag)) := by
    simpa [ne_comm, eq_comm] using yields_traceFww hcand hacc
  exact yields_traceAnd hproof (yields_traceAnd heq hfww)

/-! ## The traced pair -/

variable {Acc Vesl : Type} {env : Env Acc Vesl} {s t : State Acc Vesl} {effects : List Effect}

/-- The length at which a previous proof is measured. -/
def proofLength : Noun → Nat
  | .atom a => met 3 a
  | .cell _ _ => 0

theorem buildTransition_empty (prevProof : Noun) (prevH : Nat) (acc : Acc) (pag : NnsPageSummary)
    (block : Noun) (want : Nat) :
    buildRecursiveTransitionInputs env prevProof prevH acc pag [] block want
      = .ok (emptyTransitionSubject prevH (fromHullAtom pag.digest) (prevH + 1) (fromHullAtom want),
          transitionTraceFormulaEmpty (prevH + 1)) := rfl

theorem buildTransition_one {c : NnsClaim} {key : NnsNameKey} (hkey : nameKey env c.name = .ok key)
    (prevProof : Noun) (prevH : Nat) (acc : Acc) (pag : NnsPageSummary) (block : Noun) (want : Nat) :
    buildRecursiveTransitionInputs env prevProof prevH acc pag [c] block want
      = .ok (fullTransitionSubject (proofLength prevProof) prevH (fromHullAtom pag.digest)
            (accListHeadKey (env.zBy.tap acc)) key.d0 block (prevH + 1) (fromHullAtom want),
          transitionTraceFormulaFull prevH (prevH + 1)) := by
  unfold buildRecursiveTransitionInputs prekeyClaims
  simp only [List.mapM_cons, List.mapM_nil, hkey, ok_bind, pure_eq_ok]
  cases prevProof <;> rfl

theorem buildTransition_single (hh : env.HashLaws) (prevProof : Noun) (prevH : Nat) (acc : Acc)
    (pag : NnsPageSummary) (c : NnsClaim) (block : Noun) (want : Nat) :
    buildRecursiveTransitionInputs env prevProof prevH acc pag [c] block want
      = .ok (fullTransitionSubject (proofLength prevProof) prevH (fromHullAtom pag.digest)
            (accListHeadKey (env.zBy.tap acc)) (keyOf env c.name).d0 block (prevH + 1)
            (fromHullAtom want),
          transitionTraceFormulaFull prevH (prevH + 1)) :=
  buildTransition_one (nameKey_eq hh _) _ _ _ _ _ _

/-- The blocks that have trace inputs. -/
theorem buildTransition_claims {prevProof : Noun} {prevH : Nat} {acc : Acc} {pag : NnsPageSummary}
    {claims : List NnsClaim} {block : Noun} {want : Nat} {r : Noun × Noun}
    (h : buildRecursiveTransitionInputs env prevProof prevH acc pag claims block want = .ok r) :
    claims = [] ∨ ∃ c key, claims = [c] ∧ nameKey env c.name = .ok key := by
  unfold buildRecursiveTransitionInputs prekeyClaims at h
  by_cases hnil : claims = []
  · exact Or.inl hnil
  rw [if_neg hnil] at h
  obtain ⟨keyed, hkeyed, h⟩ := bind_eq_ok h
  by_cases hmany : keyed.length > 1
  · rw [if_pos hmany] at h
    cases h
  match claims, hnil with
  | c :: rest, _ =>
    rw [List.mapM_cons] at hkeyed
    obtain ⟨kc, hkc, hkeyed⟩ := bind_eq_ok hkeyed
    obtain ⟨key, hkey, -⟩ := bind_eq_ok hkc
    obtain ⟨keys, hkeys, hkeyed⟩ := bind_eq_ok hkeyed
    obtain rfl := Except.ok.inj hkeyed
    have hrest : keys = [] := List.eq_nil_of_length_eq_zero (by simpa using hmany)
    refine Or.inr ⟨c, key, ?_, hkey⟩
    cases rest with
    | nil => rfl
    | cons d rest =>
      rw [List.mapM_cons, hrest] at hkeys
      obtain ⟨kd, -, hkeys⟩ := bind_eq_ok hkeys
      obtain ⟨keys', -, hkeys⟩ := bind_eq_ok hkeys
      cases hkeys

/-! ## Stored proofs -/

/-- Every proof that a run stores was made by the prover. -/
theorem storesProved (inputs : List Noun) :
    (runState env inputs).recursiveProof = none ∨ (runState env inputs).StoresProved env := by
  refine final_invariant
    (I := fun t : State Acc Vesl => t.recursiveProof = none ∨ t.StoresProved env) ?_ _ _ (Or.inl rfl)
  intro s input hs
  refine nextState_rule (P := fun t => t.recursiveProof = none ∨ t.StoresProved env) hs ?_
  intro effects t hp
  rcases poke_stores hp with hkept | hstored
  · unfold State.StoresProved
    rw [hkept]
    exact hs
  · exact Or.inr hstored

theorem previousNoun_ok {j : Nat} {stored : Option Noun} {n : Noun}
    (h : previousNoun env j stored = .ok n) :
    (j = 0 ∧ stored = some n) ∨ (j ≠ 0 ∧ env.cue j = .ok n) := by
  unfold previousNoun at h
  by_cases hj : j = 0
  · rw [if_pos hj] at h
    exact Or.inl ⟨hj, orCrash_eq_ok.mp h⟩
  · rw [if_neg hj] at h
    obtain ⟨res, hres, h⟩ := bind_eq_ok h
    rcases mule_eq_ok hres with ⟨m, hm, rfl⟩ | ⟨trace, -, rfl⟩
    · obtain rfl := Except.ok.inj h
      exact Or.inr ⟨hj, hm⟩
    · simp [crash] at h

/-- The previous proof of a transition is the stored one, or is cued from the jam of one that the
kernel stored earlier. -/
def ChainsStored (env : Env Acc Vesl) (inputs : List Noun) (p : ProveTransition) : Prop :=
  p.prevProofJam = 0 ∨ ∃ earlier proof subj form, earlier <+: inputs ∧
    (runState env earlier).recursiveProof = some (proof, subj, form) ∧
    p.prevProofJam = env.jam proof

/-- Where the proofs of the prover are cells, the previous proof of a transition is one. -/
theorem previousProof_cell (hjam : env.JamLaws)
    (hcells : ∀ subj form br bh proof, env.proveComputation subj form br bh = .ok (.ok proof) →
      ∃ x y, proof = .cell x y)
    {inputs : List Noun} {p : ProveTransition} (hprev : ChainsStored env inputs p) {n : Noun}
    (h : previousNoun env p.prevProofJam ((runState env inputs).recursiveProof.map fun rp => rp.1)
      = .ok n) : ∃ x y, n = .cell x y := by
  have hstored : ∀ earlier proof subj form,
      (runState env earlier).recursiveProof = some (proof, subj, form) →
      ∃ x y, proof = .cell x y := by
    intro earlier proof subj form hsome
    have hproved : (runState env earlier).recursiveProof = none ∨
        (runState env earlier).StoresProved env := storesProved earlier
    rcases hproved with hnone | ⟨proof', _, _, br, bh, hsome', hprove⟩
    · rw [hsome] at hnone
      exact absurd hnone (by simp)
    · rw [hsome] at hsome'
      obtain rfl : proof = proof' := (Prod.mk.inj (Option.some.inj hsome')).1
      exact hcells _ _ _ _ _ hprove
  rcases previousNoun_ok h with ⟨-, hstate⟩ | ⟨hj, hcue⟩
  · obtain ⟨⟨proof, subj, form⟩, hsome, rfl⟩ := Option.map_eq_some_iff.mp hstate
    exact hstored inputs proof subj form hsome
  · rcases hprev with hzero | ⟨earlier, proof, subj, form, -, hsome, hproof⟩
    · exact absurd hzero hj
    · rw [hproof, hjam proof] at hcue
      obtain rfl := Except.ok.inj hcue
      exact hstored earlier proof subj form hsome

theorem attemptProof_not_error {subj form reason : Noun}
    (hprover : ∀ br bh, ∃ proof, env.proveComputation subj form br bh = .ok (.ok proof)) :
    attemptProof env s subj form ≠ .ok (.error reason) := by
  intro h
  unfold attemptProof at h
  obtain ⟨⟨br, bh⟩, -, h⟩ := bind_eq_ok h
  obtain ⟨proof, hproof⟩ := hprover br bh
  dsimp only at h
  rw [hproof, mule_ok] at h
  exact absurd (Except.ok.inj h) (by simp)

/-- Every `%prove-recursive-transition` with one claim that chains from a stored proof and returns
stores a proof of a pair whose product is `1`, the product of a rejected trace. -/
theorem transition_proof_rejected (hh : env.HashLaws) (hjam : env.JamLaws)
    (hcells : ∀ subj form br bh proof, env.proveComputation subj form br bh = .ok (.ok proof) →
      ∃ x y, proof = .cell x y)
    (hprover : ∀ subj form br bh product, Yields subj form product →
      ∃ proof, env.proveComputation subj form br bh = .ok (.ok proof))
    (inputs : List Noun) (input : Noun) (p : ProveTransition)
    (hcause : softCause env input = some (.proveRecursiveTransition p)) (hone : p.claims.length = 1)
    (hprev : ChainsStored env inputs p)
    (h : poke env (runState env inputs) input = .ok (effects, t)) :
    ∃ dryOk proof subj form,
      effects = [.recursiveTransitionDryRunOk dryOk, .recursiveTransitionProof proof] ∧
      t.recursiveProof = some (proof, subj, form) ∧
      transitionInputs env (runState env inputs) p = .ok (subj, form) ∧
      Yields subj form (.atom 1) ∧ ¬Yields subj form (.atom 0) := by
  rw [poke_of_softCause _ hcause] at h
  obtain ⟨subj, form, dryOk, hinputs, -, hcases⟩ := proveRecursiveTransition_cases h
  have hone' : Yields subj form (.atom 1) := by
    obtain ⟨c, hc⟩ := List.length_eq_one_iff.mp hone
    unfold transitionInputs at hinputs
    obtain ⟨prevProof, hproof, hinputs⟩ := bind_eq_ok hinputs
    obtain ⟨prevSubj, -, hinputs⟩ := bind_eq_ok hinputs
    obtain ⟨prevForm, -, hinputs⟩ := bind_eq_ok hinputs
    obtain ⟨x, y, rfl⟩ := previousProof_cell hjam hcells hprev hproof
    rw [hc, buildTransition_single hh] at hinputs
    obtain ⟨rfl, rfl⟩ := Prod.mk.inj (Except.ok.inj hinputs)
    exact yields_full 0 _ _ _ _ _ _ _
  rcases hcases with ⟨reason, hattempt, -, -⟩ | ⟨proof, -, heffects, hstate⟩
  · exact absurd hattempt (attemptProof_not_error fun br bh => hprover _ _ br bh _ hone')
  · refine ⟨dryOk, proof, subj, form, heffects, by rw [hstate], hinputs, hone', fun hzero => ?_⟩
    exact absurd (hone'.unique hzero) (by simp)

/-- A transition that chains from the stored proof. -/
def chainedTransition (claims : List NnsClaim) : ProveTransition :=
  ⟨0, 0, 0, 66, [9], claims, .atom 0⟩

theorem transition_proof_rejected_single :
    ∃ effects t, poke provingEnv (runState provingEnv [proveGenesisNoun])
        (chainedTransition [paidClaim (cord "ab.nock") 7 9]).noun = .ok (effects, t) ∧
      ∃ dryOk proof subj form,
        effects = [.recursiveTransitionDryRunOk dryOk, .recursiveTransitionProof proof] ∧
        t.recursiveProof = some (proof, subj, form) ∧
        transitionInputs provingEnv (runState provingEnv [proveGenesisNoun])
          (chainedTransition [paidClaim (cord "ab.nock") 7 9]) = .ok (subj, form) ∧
        Yields subj form (.atom 1) ∧ ¬Yields subj form (.atom 0) := by
  have hok : (poke provingEnv (runState provingEnv [proveGenesisNoun])
      (chainedTransition [paidClaim (cord "ab.nock") 7 9]).noun).toOption.isSome = true := by
    decide +kernel
  obtain ⟨⟨effects, t⟩, hpoke⟩ := Option.isSome_iff_exists.mp hok
  rw [toOption_eq_some] at hpoke
  refine ⟨effects, t, hpoke, transition_proof_rejected provingEnv_hashLaws provingEnv_jamLaws ?_ ?_
    _ _ _ (softCause_proveTransition _ _) rfl (Or.inl rfl) hpoke⟩
  · intro subj form br bh proof hproof
    exact ⟨.atom 1, .atom 1, (Except.ok.inj (Except.ok.inj hproof)).symm⟩
  · intro subj form br bh product _
    exact ⟨_, rfl⟩

/-- After a genesis proof and one transition with a claim, the stored proof is of a pair that the
trace formula rejects. -/
theorem transition_proof_stored_for_rejected :
    ∃ effects t proof subj form,
      poke provingEnv (runState provingEnv [proveGenesisNoun])
        (chainedTransition [paidClaim (cord "ab.nock") 7 9]).noun = .ok (effects, t) ∧
      .recursiveTransitionProof proof ∈ effects ∧ t.recursiveProof = some (proof, subj, form) ∧
      ¬Yields subj form (.atom 0) := by
  have hok : ((poke provingEnv (runState provingEnv [proveGenesisNoun])
      (chainedTransition [paidClaim (cord "ab.nock") 7 9]).noun).toOption.map fun r =>
        (decide (.recursiveTransitionProof (.cell (.atom 1) (.atom 1)) ∈ r.1),
          r.2.recursiveProof.map fun rp => (rp.1, (nock 12 rp.2.1 rp.2.2).toOption)))
      = some (true, some (.cell (.atom 1) (.atom 1), some (.atom 1))) := by
    decide +kernel
  obtain ⟨⟨effects, t⟩, hpoke, hr⟩ := Option.map_eq_some_iff.mp hok
  obtain ⟨hemit, hstored⟩ := Prod.mk.inj hr
  obtain ⟨⟨proof, subj, form⟩, hsome, hproduct⟩ := Option.map_eq_some_iff.mp hstored
  obtain ⟨rfl, hnock⟩ := Prod.mk.inj hproduct
  refine ⟨effects, t, _, subj, form, toOption_eq_some.mp hpoke, of_decide_eq_true hemit, hsome, ?_⟩
  intro hzero
  have hyields : Yields subj form (.atom 1) := ⟨12, toOption_eq_some.mp hnock⟩
  exact absurd (hyields.unique hzero) (by decide)

end NnsVerified.Kernel
