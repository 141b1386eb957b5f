import NnsVerified.Kernel.Proofs.TransitionProofs

/-!
# What a traced subject says about its block

The heights, the page digest and the accumulator tag of a subject are read off its flat tuple. A
transition that chains from the stored proof labels its block with the cursor of the kernel and with
the height after it.
-/

namespace NnsVerified.Kernel

open NnsVerified.Hoon NnsVerified.Hoon.Noun NnsVerified.Library

/-! ## Reading a subject -/

/-- The parts of a tuple whose last part is an atom. -/
def spine : Noun → List Noun
  | .atom a => [.atom a]
  | .cell p q => p :: spine q

/-- What the subject of a transition says. -/
structure TracedLabels where
  prevH : Nat
  page : List Noun
  /-- The tag of the accumulator, in the subject of a block with a claim. -/
  accTag : Option Nat
  wantH : Nat
  deriving DecidableEq, Repr

/-- The labels of a transition subject: `empty-subj` has 12 parts, `full-subj` 16. -/
def tracedLabels (subj : Noun) : Option TracedLabels :=
  match spine subj with
  | [.atom prevH, d0, d1, d2, d3, d4, .atom wantH, _, _, _, _, _] =>
    some ⟨prevH, [d0, d1, d2, d3, d4], none, wantH⟩
  | [_, .atom prevH, d0, d1, d2, d3, d4, .atom accTag, _, _, .atom wantH, _, _, _, _, _] =>
    some ⟨prevH, [d0, d1, d2, d3, d4], some accTag, wantH⟩
  | _ => none

/-- The height that a transition starts from. -/
def startHeight (subj : Noun) : Option Nat := (tracedLabels subj).map TracedLabels.prevH

/-- The height that a traced subject ends at: `want-h` in the subject of a transition, the genesis
height in `genesis-subj`, which has 3 parts. -/
def endHeight (subj : Noun) : Option Nat :=
  match tracedLabels subj with
  | some l => some l.wantH
  | none =>
    match spine subj with
    | [_, .atom height, _] => some height
    | _ => none

theorem tracedLabels_empty (prevH : Nat) (page : NounDigest) (wantH : Nat) (want : NounDigest) :
    tracedLabels (emptyTransitionSubject prevH page wantH want)
      = some ⟨prevH, page.limbs, none, wantH⟩ := rfl

theorem tracedLabels_full (proofLen prevH : Nat) (page : NounDigest) (accTag candTag : Nat)
    (block : Noun) (wantH : Nat) (want : NounDigest) :
    tracedLabels (fullTransitionSubject proofLen prevH page accTag candTag block wantH want)
      = some ⟨prevH, page.limbs, some accTag, wantH⟩ := rfl

theorem endHeight_genesis : endHeight (buildGenesisRecursiveInputs nnsGenesisHeight 0).1
    = some nnsGenesisHeight := rfl

theorem endHeight_of_labels {subj : Noun} {l : TracedLabels} (h : tracedLabels subj = some l) :
    endHeight subj = some l.wantH := by
  unfold endHeight
  rw [h]

/-! ## What the builder makes -/

variable {Acc Vesl : Type} {env : Env Acc Vesl} {s t : State Acc Vesl} {effects : List Effect}

/-- A block with two or more claims has no trace inputs. -/
theorem buildTransition_crash (hh : env.HashLaws) {prevProof : Noun} {prevH : Nat} {acc : Acc}
    {pag : NnsPageSummary} {claims : List NnsClaim} {block : Noun} {want : Nat}
    (hclaims : 2 ≤ claims.length) :
    buildRecursiveTransitionInputs env prevProof prevH acc pag claims block want = crash := by
  have hne : claims ≠ [] := List.ne_nil_of_length_pos (by omega)
  have hkeyed : prekeyClaims env claims = .ok (claims.map fun c => (keyOf env c.name, c)) := by
    unfold prekeyClaims
    simp only [nameKey_eq hh, ok_bind, pure_eq_ok]
    exact List.mapM_pure
  have hmany : (claims.map fun c => (keyOf env c.name, c)).length > 1 := by
    rw [List.length_map]
    omega
  unfold buildRecursiveTransitionInputs
  rw [if_neg hne, hkeyed]
  simp only [ok_bind, if_pos hmany]
  rfl

/-- The budget that every trace formula fits. -/
def traceBudget : Nat := 8

/-- The inputs of a block with at most one claim: the subject starts from the given height and ends
at the next, and names the page and the given accumulator. -/
theorem buildTransition_labels (hh : env.HashLaws) (prevProof : Noun) (prevH : Nat) (acc : Acc)
    (pag : NnsPageSummary) {claims : List NnsClaim} (block : Noun) (want : Nat)
    (hclaims : claims.length ≤ 1) :
    ∃ subj form, buildRecursiveTransitionInputs env prevProof prevH acc pag claims block want
        = .ok (subj, form) ∧
      tracedLabels subj = some ⟨prevH, (fromHullAtom pag.digest).limbs,
        if claims = [] then none else some (accListHeadKey (env.zBy.tap acc)), prevH + 1⟩ ∧
      shallow traceBudget form = true := by
  cases claims with
  | nil =>
    refine ⟨_, _, buildTransition_empty _ _ _ _ _ _, ?_, rfl⟩
    rw [tracedLabels_empty, if_pos rfl]
  | cons c rest =>
    obtain rfl : rest = [] := List.eq_nil_of_length_eq_zero (by simpa using hclaims)
    refine ⟨_, _, buildTransition_single hh _ _ _ _ _ _ _, ?_, rfl⟩
    rw [tracedLabels_full, if_neg (List.cons_ne_nil c [])]

/-! ## Transitions from the stored proof -/

theorem previousNoun_jam (hjam : env.JamLaws) (n : Noun) :
    previousNoun env (env.jam n) (some n) = .ok n := by
  unfold previousNoun
  by_cases hzero : env.jam n = 0
  · rw [if_pos hzero]
    rfl
  · rw [if_neg hzero, hjam n]
    rfl

/-- A transition whose jams are those of the stored proof, its subject and its formula. -/
def ChainsFrom (env : Env Acc Vesl) (p : ProveTransition) (proof subj form : Noun) : Prop :=
  p.prevProofJam = env.jam proof ∧ p.prevSubjectJam = env.jam subj ∧
    p.prevFormulaJam = env.jam form

theorem transitionInputs_chained (hjam : env.JamLaws) {p : ProveTransition} {proof subj form : Noun}
    (hstored : s.recursiveProof = some (proof, subj, form)) (hp : ChainsFrom env p proof subj form) :
    transitionInputs env s p = buildRecursiveTransitionInputs env proof s.prevHeight s.accumulator
      ⟨p.pageDigest, p.pageTxIds⟩ p.claims p.blockProof p.pageDigest := by
  unfold transitionInputs
  rw [hp.1, hp.2.1, hp.2.2, hstored]
  simp only [Option.map_some, previousNoun_jam hjam, ok_bind]

/-- The prover proves the pair, bound to the root and the height of the state. -/
def Provable (env : Env Acc Vesl) (s : State Acc Vesl) (subj form : Noun) : Prop :=
  ∀ root, rootAtom env s.accumulator = .ok root →
    ∃ proof, env.proveComputation subj form root s.lastProvedHeight = .ok (.ok proof)

theorem dryRun_ok (hfuel : traceBudget ≤ env.fuel) {subj form : Noun}
    (hform : shallow traceBudget form = true) : ∃ ok, dryRun env subj form = .ok ok := by
  have hrun : nock env.fuel subj form ≠ .error .hang := nock_shallow (shallow_mono hfuel hform)
  unfold dryRun
  cases hproduct : nock env.fuel subj form with
  | ok product => exact ⟨_, rfl⟩
  | error e =>
    cases e with
    | bail trace => exact ⟨_, rfl⟩
    | hang => exact absurd hproduct hrun

theorem attemptProof_provable {subj form : Noun} {root : Nat}
    (hroot : rootAtom env s.accumulator = .ok root) (hprovable : Provable env s subj form) :
    ∃ proof, attemptProof env s subj form = .ok (.ok proof) := by
  obtain ⟨proof, hproof⟩ := hprovable root hroot
  refine ⟨proof, ?_⟩
  unfold attemptProof starkBind
  rw [hroot]
  simp only [ok_bind, pure_eq_ok, hproof, mule_ok]

/-- A transition whose pair the prover proves is stored. -/
theorem proveRecursiveTransition_stored {p : ProveTransition} {prevSubj prevForm prevProof : Noun}
    {subj form : Noun} {root : Nat} (hjam : env.JamLaws) (hfuel : traceBudget ≤ env.fuel)
    (hstored : s.recursiveProof = some (prevProof, prevSubj, prevForm))
    (hp : ChainsFrom env p prevProof prevSubj prevForm)
    (hinputs : transitionInputs env s p = .ok (subj, form))
    (hform : shallow traceBudget form = true) (hroot : rootAtom env s.accumulator = .ok root)
    (hprovable : Provable env s subj form) :
    ∃ dryOk proof, proveRecursiveTransition env s p
      = .ok ([.recursiveTransitionDryRunOk dryOk, .recursiveTransitionProof proof], { s with
        lastProved := some (subj, form)
        recursiveProof := some (proof, subj, form) }) := by
  obtain ⟨ok, hdry⟩ : ∃ ok, dryRun env subj form = .ok ok := dryRun_ok hfuel hform
  obtain ⟨proof, hproof⟩ := attemptProof_provable hroot hprovable
  rw [transitionInputs_chained hjam hstored hp] at hinputs
  unfold State.prevHeight at hinputs
  refine ⟨ok, proof, ?_⟩
  unfold proveRecursiveTransition
  rw [hp.1, hp.2.1, hp.2.2, hstored]
  simp only [Option.map_some, previousNoun_jam hjam, ok_bind, hinputs, hdry, hproof]
  rfl

end NnsVerified.Kernel
