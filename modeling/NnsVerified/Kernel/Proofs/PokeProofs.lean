import NnsVerified.Kernel.Proofs.ScannerProofs

/-!
# What a poke can do

`PokeStep` lists what a poke can do to the state, and with which effects; `poke_step` shows that
every arm does one of these. Invariants of runs are case analyses over `PokeStep`.
-/

namespace NnsVerified.Kernel

open NnsVerified.Hoon NnsVerified.Library

variable {Acc Vesl : Type} {env : Env Acc Vesl} {s t : State Acc Vesl} {effects : List Effect}

/-- The effects that report an error. Those of the graft have tags of their own. -/
def Effect.isError : Effect → Bool
  | invalidCause | scanBlockError _ | verifyStarkError _ | accumulatorSnapshotVerifyError
  | validateClaimError _ | proveFailed _ => true
  | _ => false

/-- The effect of an accepted block. -/
def Effect.isDone : Effect → Bool
  | scanBlockDone _ _ _ => true
  | _ => false

/-- What a poke can do. -/
inductive PokeStep (env : Env Acc Vesl) (s : State Acc Vesl) :
    Option Cause → List Effect → State Acc Vesl → Prop where
  | same {cause : Option Cause} {effects : List Effect} (hdone : ∀ e ∈ effects, e.isDone = false) :
      PokeStep env s cause effects s
  | proved {cause : Option Cause} {effects : List Effect} (lp : Option (Noun × Noun))
      (rp : Option (Noun × Noun × Noun))
      (hok : ∀ e ∈ effects, e.isError = false ∧ e.isDone = false) :
      PokeStep env s cause effects { s with lastProved := lp, recursiveProof := rp }
  | graft (tag : VeslTag) (body : Noun) (efx : List Noun) (vesl : Vesl) :
      PokeStep env s (some (.vesl tag body)) (efx.map .vesl) { s with vesl := vesl }
  | genesisFailed {acc : Acc} (dryOk : Bool) (trace : Nat)
      (hseed : ensureGenesisTld env s.accumulator = .ok acc) :
      PokeStep env s (some .proveRecursiveGenesis)
        [.genesisRecursiveDryRunOk dryOk, .proveFailed trace] { s with accumulator := acc }
  | genesisProved {acc : Acc} (dryOk : Bool) (proof : Noun) (lp : Option (Noun × Noun))
      (rp : Option (Noun × Noun × Noun)) (hseed : ensureGenesisTld env s.accumulator = .ok acc) :
      PokeStep env s (some .proveRecursiveGenesis)
        [.genesisRecursiveDryRunOk dryOk, .genesisRecursiveProof proof]
        { s with accumulator := acc, lastProved := lp, recursiveProof := rp }
  | scanRejected {acc : Acc} (c : ScanBlock) (e : ScanBlockFault)
      (hseed : seedAccumulator env s = .ok acc) :
      PokeStep env s (some (.scanBlock c)) [.scanBlockError e] { s with accumulator := acc }
  | scanAccepted {seeded acc : Acc} {c : ScanBlock} {root : Nat}
      (hlink : s.boot = true ∨ c.parent = s.lastProvedDigest) (hheight : c.height = s.wantHeight)
      (hseed : seedAccumulator env s = .ok seeded)
      (hscan : claimScanner env seeded c.page c.height c.claims = .ok acc)
      (hroot : rootAtom env acc = .ok root) :
      PokeStep env s (some (.scanBlock c)) [.scanBlockDone c.height c.pageDigest root]
        { s with
          accumulator := acc
          lastProvedHeight := c.height
          lastProvedDigest := c.pageDigest }

/-! ## The caches -/

/-- The proof that an effect carries. -/
def Effect.proof : Effect → Option Noun
  | arbitraryProof _ proof | claimInStarkProof _ proof | genesisRecursiveProof proof
  | recursiveTransitionProof proof => some proof
  | _ => none

/-- The recursive proof that an effect carries. -/
def Effect.recursiveProof : Effect → Option Noun
  | genesisRecursiveProof proof | recursiveTransitionProof proof => some proof
  | _ => none

/-- The height that a transition starts from. -/
def State.prevHeight (s : State Acc Vesl) : Nat :=
  if s.lastProvedHeight > 0 then s.lastProvedHeight else nnsGenesisHeight

/-- The subject and the formula that a `%prove-recursive-transition` poke traces. -/
def transitionInputs (env : Env Acc Vesl) (s : State Acc Vesl) (p : ProveTransition) :
    Eval (Noun × Noun) := do
  let prevProof ← previousNoun env p.prevProofJam (s.recursiveProof.map fun rp => rp.1)
  let _prevSubj ← previousNoun env p.prevSubjectJam (s.recursiveProof.map fun rp => rp.2.1)
  let _prevForm ← previousNoun env p.prevFormulaJam (s.recursiveProof.map fun rp => rp.2.2)
  buildRecursiveTransitionInputs env prevProof s.prevHeight s.accumulator
    ⟨p.pageDigest, p.pageTxIds⟩ p.claims p.blockProof p.pageDigest

/-- The pair that a cause hands to `prove-computation`. -/
def handedInputs (env : Env Acc Vesl) (s : State Acc Vesl) : Cause → Eval (Noun × Noun)
  | .proveIdentity => .ok (.atom 42, .cell (.atom 0) (.atom 1))
  | .proveArbitrary subjectJam formulaJam => do
    let subj ← env.cue subjectJam
    let form ← env.cue formulaJam
    pure (subj, form)
  | .proveClaimInStark bundle => .ok (buildValidatorTraceInputs env bundle)
  | .proveRecursiveGenesis => .ok (buildGenesisRecursiveInputs nnsGenesisHeight 0)
  | .proveRecursiveTransition p => transitionInputs env s p
  | _ => crash

/-- The cause hands the pair to the prover, which makes the proof of it. -/
structure Proves (env : Env Acc Vesl) (s : State Acc Vesl) (cause : Option Cause)
    (subj form proof : Noun) : Prop where
  handed : ∃ c, cause = some c ∧ handedInputs env s c = .ok (subj, form)
  made : ∃ br bh, env.proveComputation subj form br bh = .ok (.ok proof)

/-- What a poke does to the cached inputs and to the stored proof. -/
inductive CacheStep (env : Env Acc Vesl) (s : State Acc Vesl) (cause : Option Cause)
    (effects : List Effect) (t : State Acc Vesl) : Prop where
  | kept (hproofs : effects.filterMap Effect.proof = [])
      (hrecursive : effects.filterMap Effect.recursiveProof = [])
      (hlast : t.lastProved = s.lastProved) (hstored : t.recursiveProof = s.recursiveProof)
  | proved {subj form proof : Noun} (hproves : Proves env s cause subj form proof)
      (hproofs : effects.filterMap Effect.proof = [proof])
      (hrecursive : effects.filterMap Effect.recursiveProof = [])
      (hlast : t.lastProved = some (subj, form)) (hstored : t.recursiveProof = s.recursiveProof)
  | chained {subj form proof : Noun} (hproves : Proves env s cause subj form proof)
      (hproofs : effects.filterMap Effect.proof = [proof])
      (hrecursive : effects.filterMap Effect.recursiveProof = [proof])
      (hlast : t.lastProved = some (subj, form))
      (hstored : t.recursiveProof = some (proof, subj, form))

/-- The prover made the stored proof. -/
def State.StoresProved (env : Env Acc Vesl) (t : State Acc Vesl) : Prop :=
  ∃ proof subj form br bh, t.recursiveProof = some (proof, subj, form) ∧
    env.proveComputation subj form br bh = .ok (.ok proof)

theorem attemptProof_ok {subj form proof : Noun}
    (h : attemptProof env s subj form = .ok (.ok proof)) :
    ∃ br bh, env.proveComputation subj form br bh = .ok (.ok proof) := by
  unfold attemptProof at h
  obtain ⟨⟨br, bh⟩, -, h⟩ := bind_eq_ok h
  obtain ⟨res, hres, h⟩ := bind_eq_ok h
  rcases mule_eq_ok hres with ⟨pr, hpr, rfl⟩ | ⟨trace, -, rfl⟩
  · obtain rfl := Except.ok.inj h
    exact ⟨br, bh, hpr⟩
  · exact absurd (Except.ok.inj h) (by simp)

/-! ## The arms -/

/-- An effect without a proof carries no recursive proof. -/
theorem Effect.recursiveProof_eq_none {e : Effect} (h : e.proof = none) :
    e.recursiveProof = none := by
  cases e <;> simp_all [Effect.proof, Effect.recursiveProof]

/-- A poke that emits no proof and leaves the caches. -/
theorem CacheStep.of_quiet {cause : Option Cause} (hquiet : ∀ e ∈ effects, e.proof = none)
    (hlast : t.lastProved = s.lastProved) (hstored : t.recursiveProof = s.recursiveProof) :
    CacheStep env s cause effects t :=
  .kept (List.filterMap_eq_nil_iff.mpr hquiet)
    (List.filterMap_eq_nil_iff.mpr fun e he => Effect.recursiveProof_eq_none (hquiet e he)) hlast hstored

/-- An arm that returns the state it was given. -/
theorem PokeStep.of_same {cause : Option Cause} {effects' : List Effect}
    (h : (.ok (effects', s) : Eval (List Effect × State Acc Vesl)) = .ok (effects, t))
    (hquiet : effects'.any (fun e => e.isDone || e.proof.isSome) = false) :
    PokeStep env s cause effects t ∧ CacheStep env s cause effects t := by
  obtain ⟨rfl, rfl⟩ := Prod.mk.inj (Except.ok.inj h)
  rw [List.any_eq_false] at hquiet
  have hnone : ∀ e ∈ effects', e.isDone = false ∧ e.proof = none := by
    intro e he
    simpa using hquiet e he
  exact ⟨.same fun e he => (hnone e he).1, .of_quiet (fun e he => (hnone e he).2) rfl rfl⟩

/-- An arm that caches the pair it proved. -/
theorem PokeStep.of_proved {c : Cause} {e : Effect} {subj form proof : Noun}
    (hpair : handedInputs env s c = .ok (subj, form))
    (hattempt : attemptProof env s subj form = .ok (.ok proof))
    (h : (.ok ([e], { s with lastProved := some (subj, form) }) :
      Eval (List Effect × State Acc Vesl)) = .ok (effects, t))
    (hok : e.isError = false ∧ e.isDone = false) (hproof : e.proof = some proof)
    (hrecursive : e.recursiveProof = none) :
    PokeStep env s (some c) effects t ∧ CacheStep env s (some c) effects t := by
  obtain ⟨rfl, rfl⟩ := Prod.mk.inj (Except.ok.inj h)
  refine ⟨.proved _ s.recursiveProof (by simpa using hok),
    .proved ⟨⟨c, rfl, hpair⟩, attemptProof_ok hattempt⟩ ?_ ?_ rfl rfl⟩
  · rw [List.filterMap_cons_some hproof, List.filterMap_nil]
  · rw [List.filterMap_cons_none hrecursive, List.filterMap_nil]

/-- What a `%scan-block` poke that returns has done: it reported an error and left all but the
accumulator, or it accepted the block. -/
theorem scanBlock_cases {c : ScanBlock} (h : scanBlock env s c = .ok (effects, t)) :
    (∃ e acc, effects = [.scanBlockError e] ∧ t = { s with accumulator := acc } ∧
      (acc = s.accumulator ∨ seedAccumulator env s = .ok acc)) ∨
    ∃ seeded acc root, (s.boot = true ∨ c.parent = s.lastProvedDigest) ∧ c.height = s.wantHeight ∧
      seedAccumulator env s = .ok seeded ∧
      claimScanner env seeded c.page c.height c.claims = .ok acc ∧ rootAtom env acc = .ok root ∧
      effects = [.scanBlockDone c.height c.pageDigest root] ∧
      t = { s with
        accumulator := acc
        lastProvedHeight := c.height
        lastProvedDigest := c.pageDigest } := by
  unfold scanBlock at h
  by_cases hlink : (s.boot || decide (c.parent = s.lastProvedDigest)) = true
  · have hlink' : s.boot = true ∨ c.parent = s.lastProvedDigest := by simpa using hlink
    simp only [hlink, Bool.not_true, Bool.false_eq_true, if_false] at h
    obtain ⟨seeded, hseed, h⟩ := bind_eq_ok h
    by_cases hheight : c.height = s.wantHeight
    · rw [if_neg (not_not.mpr hheight)] at h
      obtain ⟨accRun, hscan, h⟩ := bind_eq_ok h
      rcases mule_eq_ok hscan with ⟨acc, hacc, rfl⟩ | ⟨trace, -, rfl⟩
      · obtain ⟨rootRun, hrootRun, h⟩ := bind_eq_ok h
        rcases mule_eq_ok hrootRun with ⟨root, hroot, rfl⟩ | ⟨trace, -, rfl⟩
        · obtain ⟨rfl, rfl⟩ := Prod.mk.inj (Except.ok.inj h)
          exact Or.inr ⟨seeded, acc, root, hlink', hheight, hseed, hacc, hroot, rfl, rfl⟩
        · obtain ⟨rfl, rfl⟩ := Prod.mk.inj (Except.ok.inj h)
          exact Or.inl ⟨_, _, rfl, rfl, Or.inr hseed⟩
      · obtain ⟨rfl, rfl⟩ := Prod.mk.inj (Except.ok.inj h)
        exact Or.inl ⟨_, _, rfl, rfl, Or.inr hseed⟩
    · rw [if_pos hheight] at h
      obtain ⟨rfl, rfl⟩ := Prod.mk.inj (Except.ok.inj h)
      exact Or.inl ⟨_, _, rfl, rfl, Or.inr hseed⟩
  · simp only [hlink, Bool.not_false, if_true] at h
    obtain ⟨rfl, rfl⟩ := Prod.mk.inj (Except.ok.inj h)
    exact Or.inl ⟨_, _, rfl, rfl, Or.inl rfl⟩

theorem scanBlock_step {c : ScanBlock} (h : scanBlock env s c = .ok (effects, t)) :
    PokeStep env s (some (.scanBlock c)) effects t ∧
      CacheStep env s (some (.scanBlock c)) effects t := by
  rcases scanBlock_cases h with ⟨e, acc, rfl, rfl, rfl | hseed⟩ |
    ⟨seeded, acc, root, hlink, hheight, hseed, hscan, hroot, rfl, rfl⟩
  · exact ⟨.same (by simp [Effect.isDone]), .kept rfl rfl rfl rfl⟩
  · exact ⟨.scanRejected c e hseed, .kept rfl rfl rfl rfl⟩
  · exact ⟨.scanAccepted hlink hheight hseed hscan hroot, .kept rfl rfl rfl rfl⟩

/-- A linked block at the required height is accepted when its scan and its root succeed. -/
theorem scanBlock_accepted {c : ScanBlock} {seeded acc : Acc} {root : Nat}
    (hlink : s.boot = true ∨ c.parent = s.lastProvedDigest) (hheight : c.height = s.wantHeight)
    (hseed : seedAccumulator env s = .ok seeded)
    (hscan : claimScanner env seeded c.page c.height c.claims = .ok acc)
    (hroot : rootAtom env acc = .ok root) :
    scanBlock env s c = .ok ([.scanBlockDone c.height c.pageDigest root],
      { s with
        accumulator := acc
        lastProvedHeight := c.height
        lastProvedDigest := c.pageDigest }) := by
  have hlink' : (s.boot || decide (c.parent = s.lastProvedDigest)) = true := by simpa using hlink
  unfold scanBlock
  rw [hlink', hseed]
  simp only [Bool.not_true, Bool.false_eq_true, if_false, ok_bind, if_neg (not_not.mpr hheight),
    hscan, mule_ok, hroot]
  rfl

theorem proveIdentity_step {cause : Option Cause} (h : proveIdentity env s = .ok (effects, t)) :
    PokeStep env s cause effects t ∧ CacheStep env s cause effects t := by
  unfold proveIdentity at h
  obtain ⟨res, -, h⟩ := bind_eq_ok h
  split at h
  · obtain ⟨ok, -, h⟩ := bind_eq_ok h
    exact PokeStep.of_same h rfl
  · exact PokeStep.of_same h rfl

theorem verifyStark_step {cause : Option Cause} {blob : Noun}
    (h : verifyStark env s blob = .ok (effects, t)) :
    PokeStep env s cause effects t ∧ CacheStep env s cause effects t := by
  unfold verifyStark at h
  cases blob with
  | cell p q => exact PokeStep.of_same h rfl
  | atom jammy =>
    obtain ⟨cueRes, -, h⟩ := bind_eq_ok h
    cases cueRes with
    | error trace => exact PokeStep.of_same h rfl
    | ok cued =>
      obtain ⟨proof, -, h⟩ := bind_eq_ok h
      split at h
      · exact PokeStep.of_same h rfl
      · obtain ⟨ok, -, h⟩ := bind_eq_ok h
        exact PokeStep.of_same h rfl

theorem verifyStarkExplicit_step {cause : Option Cause} {blob subjectJam formulaJam : Noun}
    (h : verifyStarkExplicit env s blob subjectJam formulaJam = .ok (effects, t)) :
    PokeStep env s cause effects t ∧ CacheStep env s cause effects t := by
  unfold verifyStarkExplicit at h
  cases blob with
  | cell p q => exact PokeStep.of_same h rfl
  | atom jammy =>
    cases subjectJam with
    | cell p q => exact PokeStep.of_same h rfl
    | atom subject =>
      cases formulaJam with
      | cell p q => exact PokeStep.of_same h rfl
      | atom formula =>
        obtain ⟨cueRes, -, h⟩ := bind_eq_ok h
        cases cueRes with
        | error trace => exact PokeStep.of_same h rfl
        | ok cued =>
          obtain ⟨proof, -, h⟩ := bind_eq_ok h
          obtain ⟨subjectCue, -, h⟩ := bind_eq_ok h
          cases subjectCue with
          | error trace => exact PokeStep.of_same h rfl
          | ok subject =>
            obtain ⟨formulaCue, -, h⟩ := bind_eq_ok h
            cases formulaCue with
            | error trace => exact PokeStep.of_same h rfl
            | ok formula =>
              obtain ⟨ok, -, h⟩ := bind_eq_ok h
              exact PokeStep.of_same h rfl

theorem verifyAccumulatorSnapshot_step {cause : Option Cause} {v : VerifySnapshot}
    (h : verifyAccumulatorSnapshot env s v = .ok (effects, t)) :
    PokeStep env s cause effects t ∧ CacheStep env s cause effects t := by
  unfold verifyAccumulatorSnapshot at h
  obtain ⟨accCue, -, h⟩ := bind_eq_ok h
  cases accCue with
  | error trace => exact PokeStep.of_same h rfl
  | ok cued =>
    obtain ⟨acc, -, h⟩ := bind_eq_ok h
    obtain ⟨root, -, h⟩ := bind_eq_ok h
    split at h
    · exact PokeStep.of_same h rfl
    · obtain ⟨got, -, h⟩ := bind_eq_ok h
      exact PokeStep.of_same h rfl

theorem validateClaim_step {cause : Option Cause} {bundle : ClaimBundle}
    (h : validateClaim s bundle = .ok (effects, t)) :
    PokeStep env s cause effects t ∧ CacheStep env s cause effects t := by
  unfold validateClaim at h
  obtain ⟨res, -, h⟩ := bind_eq_ok h
  cases res with
  | none => exact PokeStep.of_same h rfl
  | some e => exact PokeStep.of_same h rfl

theorem proveArbitrary_step {subjectJam formulaJam : Nat}
    (h : proveArbitrary env s subjectJam formulaJam = .ok (effects, t)) :
    PokeStep env s (some (.proveArbitrary subjectJam formulaJam)) effects t ∧
      CacheStep env s (some (.proveArbitrary subjectJam formulaJam)) effects t := by
  unfold proveArbitrary at h
  obtain ⟨subjectCue, hsubject, h⟩ := bind_eq_ok h
  rcases mule_eq_ok hsubject with ⟨subj, hsubj, rfl⟩ | ⟨trace, -, rfl⟩
  · obtain ⟨formulaCue, hformula, h⟩ := bind_eq_ok h
    rcases mule_eq_ok hformula with ⟨form, hform, rfl⟩ | ⟨trace, -, rfl⟩
    · obtain ⟨attempt, hattempt, h⟩ := bind_eq_ok h
      cases attempt with
      | error reason => exact PokeStep.of_same h rfl
      | ok proof =>
        obtain ⟨product, -, h⟩ := bind_eq_ok h
        have hpair : handedInputs env s (.proveArbitrary subjectJam formulaJam)
            = .ok (subj, form) := by
          simp only [handedInputs, hsubj, hform, ok_bind, pure_eq_ok]
        exact PokeStep.of_proved hpair hattempt h ⟨rfl, rfl⟩ rfl rfl
    · exact PokeStep.of_same h rfl
  · exact PokeStep.of_same h rfl

theorem proveClaimInStark_step {bundle : ClaimBundleLinear}
    (h : proveClaimInStark env s bundle = .ok (effects, t)) :
    PokeStep env s (some (.proveClaimInStark bundle)) effects t ∧
      CacheStep env s (some (.proveClaimInStark bundle)) effects t := by
  unfold proveClaimInStark at h
  obtain ⟨dry, -, h⟩ := bind_eq_ok h
  cases dry with
  | error trace => exact PokeStep.of_same h rfl
  | ok product =>
    obtain ⟨attempt, hattempt, h⟩ := bind_eq_ok h
    cases attempt with
    | error reason => exact PokeStep.of_same h rfl
    | ok proof =>
      obtain ⟨product, -, h⟩ := bind_eq_ok h
      exact PokeStep.of_proved rfl hattempt h ⟨rfl, rfl⟩ rfl rfl

/-- What a `%prove-recursive-genesis` poke that returns has done: it seeded the accumulator, and it
stored the proof of the genesis pair where it made one. -/
theorem proveRecursiveGenesis_cases (h : proveRecursiveGenesis env s = .ok (effects, t)) :
    ∃ acc dryOk, ensureGenesisTld env s.accumulator = .ok acc ∧
      dryRun env (buildGenesisRecursiveInputs nnsGenesisHeight 0).1
        (buildGenesisRecursiveInputs nnsGenesisHeight 0).2 = .ok dryOk ∧
      ((∃ reason, effects = [.genesisRecursiveDryRunOk dryOk, .proveFailed (env.jam reason)] ∧
          t = { s with accumulator := acc }) ∨
        ∃ proof, attemptProof env { s with accumulator := acc }
            (buildGenesisRecursiveInputs nnsGenesisHeight 0).1
            (buildGenesisRecursiveInputs nnsGenesisHeight 0).2 = .ok (.ok proof) ∧
          effects = [.genesisRecursiveDryRunOk dryOk, .genesisRecursiveProof proof] ∧
          t = { s with
            accumulator := acc
            lastProved := some (buildGenesisRecursiveInputs nnsGenesisHeight 0)
            recursiveProof := some (proof, buildGenesisRecursiveInputs nnsGenesisHeight 0) }) := by
  unfold proveRecursiveGenesis at h
  obtain ⟨acc, hseed, h⟩ := bind_eq_ok h
  obtain ⟨dryOk, hdry, h⟩ := bind_eq_ok h
  obtain ⟨attempt, hattempt, h⟩ := bind_eq_ok h
  refine ⟨acc, dryOk, hseed, hdry, ?_⟩
  cases attempt with
  | error reason =>
    obtain ⟨rfl, rfl⟩ := Prod.mk.inj (Except.ok.inj h)
    exact Or.inl ⟨reason, rfl, rfl⟩
  | ok proof =>
    obtain ⟨rfl, rfl⟩ := Prod.mk.inj (Except.ok.inj h)
    exact Or.inr ⟨proof, hattempt, rfl, rfl⟩

theorem proveRecursiveGenesis_step (h : proveRecursiveGenesis env s = .ok (effects, t)) :
    PokeStep env s (some .proveRecursiveGenesis) effects t ∧
      CacheStep env s (some .proveRecursiveGenesis) effects t := by
  obtain ⟨acc, dryOk, hseed, -, ⟨reason, rfl, rfl⟩ | ⟨proof, hattempt, rfl, rfl⟩⟩ :=
    proveRecursiveGenesis_cases h
  · exact ⟨.genesisFailed dryOk _ hseed, .kept rfl rfl rfl rfl⟩
  · exact ⟨.genesisProved dryOk proof _ _ hseed,
      .chained ⟨⟨_, rfl, rfl⟩, attemptProof_ok hattempt⟩ rfl rfl rfl rfl⟩

/-- What a `%prove-recursive-transition` poke that returns has done: it proved the pair that it
traces, whatever the dry run said, or it failed and left the state. -/
theorem proveRecursiveTransition_cases {p : ProveTransition}
    (h : proveRecursiveTransition env s p = .ok (effects, t)) :
    ∃ subj form dryOk, transitionInputs env s p = .ok (subj, form) ∧
      dryRun env subj form = .ok dryOk ∧
      ((∃ reason, attemptProof env s subj form = .ok (.error reason) ∧
          effects = [.recursiveTransitionDryRunOk dryOk, .proveFailed (env.jam reason)] ∧ t = s) ∨
        ∃ proof, attemptProof env s subj form = .ok (.ok proof) ∧
          effects = [.recursiveTransitionDryRunOk dryOk, .recursiveTransitionProof proof] ∧
          t = { s with
            lastProved := some (subj, form)
            recursiveProof := some (proof, subj, form) }) := by
  unfold proveRecursiveTransition at h
  obtain ⟨prevProof, hproof, h⟩ := bind_eq_ok h
  obtain ⟨prevSubj, hsubj, h⟩ := bind_eq_ok h
  obtain ⟨prevForm, hform, h⟩ := bind_eq_ok h
  obtain ⟨⟨subj, form⟩, hbuild, h⟩ := bind_eq_ok h
  obtain ⟨dryOk, hdry, h⟩ := bind_eq_ok h
  obtain ⟨attempt, hattempt, h⟩ := bind_eq_ok h
  have hinputs : transitionInputs env s p = .ok (subj, form) := by
    unfold transitionInputs
    rw [hproof, hsubj, hform]
    exact hbuild
  refine ⟨subj, form, dryOk, hinputs, hdry, ?_⟩
  cases attempt with
  | error reason =>
    obtain ⟨rfl, rfl⟩ := Prod.mk.inj (Except.ok.inj h)
    exact Or.inl ⟨reason, hattempt, rfl, rfl⟩
  | ok proof =>
    obtain ⟨rfl, rfl⟩ := Prod.mk.inj (Except.ok.inj h)
    exact Or.inr ⟨proof, hattempt, rfl, rfl⟩

theorem proveRecursiveTransition_step {p : ProveTransition}
    (h : proveRecursiveTransition env s p = .ok (effects, t)) :
    PokeStep env s (some (.proveRecursiveTransition p)) effects t ∧
      CacheStep env s (some (.proveRecursiveTransition p)) effects t := by
  obtain ⟨subj, form, dryOk, hinputs, -, ⟨reason, -, rfl, rfl⟩ | ⟨proof, hattempt, rfl, rfl⟩⟩ :=
    proveRecursiveTransition_cases h
  · exact ⟨.same (by simp [Effect.isDone]), .kept rfl rfl rfl rfl⟩
  · exact ⟨.proved _ _ (by simp [Effect.isError, Effect.isDone]),
      .chained ⟨⟨_, rfl, hinputs⟩, attemptProof_ok hattempt⟩ rfl rfl rfl rfl⟩

theorem veslArm_step {tag : VeslTag} {body : Noun}
    (h : veslArm env s tag body = .ok (effects, t)) :
    PokeStep env s (some (.vesl tag body)) effects t ∧
      CacheStep env s (some (.vesl tag body)) effects t := by
  unfold veslArm at h
  obtain ⟨⟨efx, vesl⟩, -, h⟩ := bind_eq_ok h
  obtain ⟨rfl, rfl⟩ := Prod.mk.inj (Except.ok.inj h)
  exact ⟨.graft tag body efx vesl, .of_quiet (by simp [Effect.proof]) rfl rfl⟩

/-- Every cause does one of the steps, to the caches as well. -/
theorem pokeCause_step {cause : Cause} (h : pokeCause env s cause = .ok (effects, t)) :
    PokeStep env s (some cause) effects t ∧ CacheStep env s (some cause) effects t := by
  cases cause with
  | proveRecursiveGenesis => exact proveRecursiveGenesis_step h
  | proveRecursiveTransition p => exact proveRecursiveTransition_step h
  | verifyStark blob => exact verifyStark_step h
  | verifyStarkExplicit blob subjectJam formulaJam => exact verifyStarkExplicit_step h
  | verifyAccumulatorSnapshot v => exact verifyAccumulatorSnapshot_step h
  | proveIdentity => exact proveIdentity_step h
  | scanBlock c => exact scanBlock_step h
  | verifyChainLink claimDigest headers anchoredTip => exact PokeStep.of_same h rfl
  | verifyTxInPage digest txIds claimedTxId => exact PokeStep.of_same h rfl
  | validateClaim bundle => exact validateClaim_step h
  | proveArbitrary subjectJam formulaJam => exact proveArbitrary_step h
  | proveClaimInStark bundle => exact proveClaimInStark_step h
  | vesl tag body => exact veslArm_step h

/-- Every poke that returns does one of the steps. -/
theorem poke_steps {input : Noun} (h : poke env s input = .ok (effects, t)) :
    PokeStep env s (softCause env input) effects t ∧
      CacheStep env s (softCause env input) effects t := by
  unfold poke at h
  cases hc : softCause env input with
  | none =>
    rw [hc] at h
    exact PokeStep.of_same h rfl
  | some cause =>
    rw [hc] at h
    exact pokeCause_step h

theorem poke_step {input : Noun} (h : poke env s input = .ok (effects, t)) :
    PokeStep env s (softCause env input) effects t := (poke_steps h).1

theorem poke_cache {input : Noun} (h : poke env s input = .ok (effects, t)) :
    CacheStep env s (softCause env input) effects t := (poke_steps h).2

/-- A poke keeps the stored proof or stores one that the prover made. -/
theorem poke_stores {input : Noun} (h : poke env s input = .ok (effects, t)) :
    t.recursiveProof = s.recursiveProof ∨ t.StoresProved env := by
  cases poke_cache h with
  | kept _ _ _ hstored => exact Or.inl hstored
  | proved _ _ _ _ hstored => exact Or.inl hstored
  | @chained subj form proof hproves _ _ _ hstored =>
    obtain ⟨br, bh, hmade⟩ := hproves.made
    exact Or.inr ⟨proof, subj, form, br, bh, hstored, hmade⟩

/-! ## Steps of a run -/

theorem poke_of_softCause {env : Env Acc Vesl} (s : State Acc Vesl) {input : Noun} {cause : Cause}
    (h : softCause env input = some cause) : poke env s input = pokeCause env s cause := by
  unfold poke
  rw [h]

theorem nextState_of_ok {input : Noun} (h : poke env s input = .ok (effects, t)) :
    nextState env s input = t := by
  unfold nextState
  rw [h]

/-- What holds of the state before a poke, and of the state that it returns where it returns, holds of
the next state. -/
theorem nextState_rule {P : State Acc Vesl → Prop} {input : Noun} (hs : P s)
    (ht : ∀ effects t, poke env s input = .ok (effects, t) → P t) : P (nextState env s input) := by
  unfold nextState
  cases hp : poke env s input with
  | error e => exact hs
  | ok r => exact ht r.1 r.2 hp

/-- A poke makes the kernel accept a block exactly when it emits `%scan-block-done`. -/
theorem acceptedBlock_isSome {input : Noun} (h : poke env s input = .ok (effects, t)) :
    (acceptedBlock env s input).isSome = true ↔ ∃ e ∈ effects, e.isDone = true := by
  have hstep := poke_step h
  unfold acceptedBlock
  rw [h]
  generalize softCause env input = cause at hstep
  have hquiet : (∀ e ∈ effects, e.isDone = false) → ¬∃ e ∈ effects, e.isDone = true := by
    rintro hdone ⟨e, he, hd⟩
    rw [hdone e he] at hd
    exact absurd hd (by simp)
  constructor
  · intro hsome
    split at hsome
    · rename_i heq
      obtain ⟨rfl, -⟩ := Prod.mk.inj (Except.ok.inj heq)
      exact ⟨_, List.mem_singleton.mpr rfl, rfl⟩
    · exact absurd hsome (by simp)
  · intro hdone
    cases hstep with
    | same hd => exact absurd hdone (hquiet hd)
    | proved lp rp hok => exact absurd hdone (hquiet fun e he => (hok e he).2)
    | graft tag body efx vesl => exact absurd hdone (hquiet (by simp [Effect.isDone]))
    | genesisFailed dryOk trace hseed => exact absurd hdone (hquiet (by simp [Effect.isDone]))
    | genesisProved dryOk proof lp rp hseed => exact absurd hdone (hquiet (by simp [Effect.isDone]))
    | scanRejected c e hseed => exact absurd hdone (hquiet (by simp [Effect.isDone]))
    | scanAccepted hlink hheight hseed hscan hroot => rfl

/-- The next state of a poke that accepts no block: the cursor stays, and the accumulator is at most
seeded. -/
theorem nextState_of_rejected {input : Noun} (h : acceptedBlock env s input = none) :
    (nextState env s input).lastProvedHeight = s.lastProvedHeight ∧
      (nextState env s input).lastProvedDigest = s.lastProvedDigest ∧
      ((nextState env s input).accumulator = s.accumulator ∨
        ensureGenesisTld env s.accumulator = .ok (nextState env s input).accumulator) := by
  refine nextState_rule (P := fun t => t.lastProvedHeight = s.lastProvedHeight ∧
    t.lastProvedDigest = s.lastProvedDigest ∧ (t.accumulator = s.accumulator ∨
      ensureGenesisTld env s.accumulator = .ok t.accumulator)) ⟨rfl, rfl, Or.inl rfl⟩ ?_
  intro effects t hp
  have hquiet : ¬∃ e ∈ effects, e.isDone = true := by
    rw [← acceptedBlock_isSome hp, h]
    simp
  have hstep := poke_step hp
  generalize softCause env input = cause at hstep
  cases hstep with
  | same hdone => exact ⟨rfl, rfl, Or.inl rfl⟩
  | proved lp rp hok => exact ⟨rfl, rfl, Or.inl rfl⟩
  | graft tag body efx vesl => exact ⟨rfl, rfl, Or.inl rfl⟩
  | genesisFailed dryOk trace hseed => exact ⟨rfl, rfl, Or.inr hseed⟩
  | genesisProved dryOk proof lp rp hseed => exact ⟨rfl, rfl, Or.inr hseed⟩
  | scanRejected c e hseed =>
    refine ⟨rfl, rfl, ?_⟩
    unfold seedAccumulator at hseed
    split at hseed
    · exact Or.inr hseed
    · exact Or.inl (Except.ok.inj hseed).symm
  | scanAccepted hlink hheight hseed hscan hroot =>
    exact absurd ⟨_, List.mem_singleton.mpr rfl, rfl⟩ hquiet

/-- What the acceptance of a block says about the states before and after it. -/
structure Accepts (env : Env Acc Vesl) (s : State Acc Vesl) (c : ScanBlock) (t : State Acc Vesl) :
    Prop where
  link : s.boot = true ∨ c.parent = s.lastProvedDigest
  height : c.height = s.wantHeight
  scan : ∃ seeded, seedAccumulator env s = .ok seeded ∧
    claimScanner env seeded c.page c.height c.claims = .ok t.accumulator
  root : ∃ r, rootAtom env t.accumulator = .ok r
  nextHeight : t.lastProvedHeight = c.height
  nextDigest : t.lastProvedDigest = c.pageDigest

theorem nextState_of_accepted {input : Noun} {c : ScanBlock}
    (h : acceptedBlock env s input = some c) : Accepts env s c (nextState env s input) := by
  cases hp : poke env s input with
  | error e =>
    unfold acceptedBlock at h
    rw [hp] at h
    split at h <;> simp_all
  | ok r =>
    obtain ⟨effects, t⟩ := r
    obtain ⟨e, he, hdone⟩ := (acceptedBlock_isSome hp).mp (by rw [h]; rfl)
    have hstep := poke_step hp
    unfold acceptedBlock at h
    rw [nextState_of_ok hp]
    rw [hp] at h
    generalize softCause env input = cause at hstep h
    cases hstep with
    | same hd => exact absurd hdone (by simp [hd e he])
    | proved lp rp hok => exact absurd hdone (by simp [(hok e he).2])
    | graft tag body efx vesl => simp at h
    | genesisFailed dryOk trace hseed => simp at h
    | genesisProved dryOk proof lp rp hseed => simp at h
    | scanRejected c' e' hseed => simp at h
    | @scanAccepted seeded acc c' root hlink hheight hseed hscan hroot =>
      obtain rfl := Option.some.inj h
      exact ⟨hlink, hheight, ⟨seeded, hseed, hscan⟩, ⟨root, hroot⟩, rfl, rfl⟩

end NnsVerified.Kernel
