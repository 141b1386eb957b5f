import NnsVerified.Hull.Debug
import NnsVerified.Hull.Proofs.EncodingProofs
import NnsVerified.Hull.Proofs.FollowerProofs
import NnsVerified.Hull.Sample
import NnsVerified.Kernel.Proofs.FreeNameProofs
import NnsVerified.Kernel.Proofs.ParityProofs
import NnsVerified.Kernel.Proofs.RunProofs

/-!
# What the parity oracles tell

In every reachable state the three oracles answer yes, also where the formula of the third one
rejects the subject that it is run on: where the name of its claim has the first row of the registry.
-/

namespace NnsVerified.Hull

open NnsVerified.Hoon NnsVerified.Hoon.Noun NnsVerified.Library NnsVerified.Kernel

variable {H Z L Acc Vesl : Type} {c : Crates H Z L} {env : PeekEnv Acc Vesl} {s : State Acc Vesl}
  {seeded : Acc}

/-- What the hull reads from an oracle. -/
def parityAnswer (c : Crates H Z L) (env : PeekEnv Acc Vesl) (s : State Acc Vesl) (path : Noun) :
    Except String Bool :=
  (peekNoun env.withParity s path).toOption.elim (.error "peek failed") (decodeParityTraceBool c)

theorem peekNoun_parity {tag : String} {b : Bool} (hother : Peek.ofPath (parityPath tag) = none)
    (hseeded : ensureGenesisTld env.toEnv s.accumulator = .ok seeded)
    (hparity : peekTracerParity env (parityPath tag) seeded s.lastProvedHeight s.lastProvedDigest
      Kernel.nnsGenesisHeight = .ok (some (some (loob b)))) :
    peekNoun env.withParity s (parityPath tag) = .ok (Noun.tuple (.atom 0) [.atom 0, loob b]) := by
  have hseeded' : ensureGenesisTld env.withParity.toEnv s.accumulator = .ok seeded := hseeded
  have hpeek : env.withParity.otherPeek s (parityPath tag) = .ok (some (some (loob b))) := by
    simp only [PeekEnv.withParity]
    rw [hseeded, ok_bind, hparity]
    rfl
  unfold peekNoun peek
  rw [hother, hseeded', ok_bind]
  dsimp only
  rw [hpeek]
  rfl

theorem decodeParityTraceBool_loob (hn : c.NounLaws) (b : Bool) :
    decodeParityTraceBool c (Noun.tuple (.atom 0) [.atom 0, loob b]) = .ok b := by
  have hdecode : decodeParityTraceBool c (Noun.tuple (.atom 0) [.atom 0, loob b]) = (do
      let v ← (asU64 c (loob b)).mapError fun _ => "parity-trace peek: expected loobean atom"
      return decide (v = 0)) := rfl
  rw [hdecode]
  cases b with
  | false =>
    rw [loob, if_neg (by simp), asU64_atom hn (by decide)]
    rfl
  | true =>
    rw [loob, if_pos rfl, asU64_atom hn (by decide)]
    rfl

section

variable (hh : env.HashLaws) (hm : env.MapLaws) (hfuel : traceBudget ≤ env.fuel)

include hh hm hfuel

/-- The oracles answer yes on a registry with the reserved row. -/
theorem peekTracerParity_true (hb : env.zBy.Built NounDigest.Based seeded)
    (hhas : has env.toEnv seeded nnsGenesisTldName = .ok true) (h d : Nat) {tag : String}
    (htag : tag ∈ ["parity-trace-genesis", "parity-trace-transition-empty",
      "parity-trace-transition-full"]) :
    peekTracerParity env (parityPath tag) seeded h d Kernel.nnsGenesisHeight
      = .ok (some (some (loob true))) := by
  have hgenesis : parityGenesisTrace env.toEnv seeded Kernel.nnsGenesisHeight 0 = .ok true := by
    rw [parityGenesisTrace_eq hfuel, genesisRecursiveFormula_eq hhas]
    rfl
  have hempty : ∀ prevH pageD, 0 < prevH →
      parityTransitionEmpty env.toEnv prevH pageD seeded = .ok true := by
    intro prevH pageD hpos
    rw [parityTransitionEmpty_eq hfuel]
    refine (transitionSpec_next hh hm hb (.atom 1) prevH ⟨pageD, []⟩ []).trans ?_
    rw [prevProofOkSpec_iff.mpr ⟨by decide, hpos⟩]
  have hfull : parityTransitionFull env.toEnv (.atom 1) Kernel.nnsGenesisHeight seeded ⟨1, []⟩
      [oracleClaim] = .ok true := by
    rw [parityTransitionFull_eq hfuel hh, transitionSpec_next hh hm hb,
      prevProofOkSpec_iff.mpr ⟨by decide, by decide⟩]
  simp only [List.mem_cons, List.not_mem_nil, or_false] at htag
  have hpath : parityPath "parity-trace-transition-empty" ≠ parityPath "parity-trace-genesis" ∧
      parityPath "parity-trace-transition-full" ≠ parityPath "parity-trace-genesis" ∧
      parityPath "parity-trace-transition-full" ≠ parityPath "parity-trace-transition-empty" := by
    decide
  obtain ⟨hempty', hfull', hfull''⟩ := hpath
  unfold peekTracerParity
  rcases htag with rfl | rfl | rfl
  · rw [if_pos rfl, hgenesis]
    rfl
  · have hpos : 0 < if h > 0 then h else Kernel.nnsGenesisHeight := by
      split
      · assumption
      · decide
    rw [if_neg hempty', if_pos rfl]
    dsimp only
    rw [hempty _ _ hpos]
    rfl
  · rw [if_neg hfull', if_neg hfull'', if_pos rfl, hfull]
    rfl

/-- The three oracles answer yes in every reachable state. The formula of the last one accepts its
subject only where the first row of the registry has another tag than the claim that it is run on. -/
theorem parity_oracles_true (hn : c.NounLaws) (inputs : List Noun) :
    (∀ path ∈ [buildParityTraceGenesisPeek c, buildParityTraceTransitionEmptyPeek c,
      buildParityTraceTransitionFullPeek c],
      parityAnswer c env (runState env.toEnv inputs) path = .ok true) ∧
    ∃ seeded subj form,
      ensureGenesisTld env.toEnv (runState env.toEnv inputs).accumulator = .ok seeded ∧
      buildRecursiveTransitionInputs env.toEnv (.atom 1) Kernel.nnsGenesisHeight seeded ⟨1, []⟩
        [oracleClaim] (.atom 0) 1 = .ok (subj, form) ∧
      (Yields subj form (.atom 0) ↔ (keyOf env.toEnv oracleClaim.name).d0 = 0 ∨
        accListHeadKey (env.zBy.tap seeded) ≠ (keyOf env.toEnv oracleClaim.name).d0) := by
  have hins := (runInv hh hm inputs).inserted
  obtain ⟨seeded, hseeded, hins', hview⟩ := ensureGenesisTld_spec hh hm hins
  have hb := hins'.built hh hm
  have hhas : has env.toEnv seeded nnsGenesisTldName = .ok true := by
    rw [has_eq hh hm hb, hview _ (keyOf_based hh _), register, if_pos rfl]
    simp
  have htrue : ∀ tag ∈ ["parity-trace-genesis", "parity-trace-transition-empty",
      "parity-trace-transition-full"],
      parityAnswer c env (runState env.toEnv inputs) (singleTagPeek c tag) = .ok true := by
    intro tag htag
    have hother : Peek.ofPath (parityPath tag) = none := by
      simp only [List.mem_cons, List.not_mem_nil, or_false] at htag
      rcases htag with rfl | rfl | rfl <;> decide
    unfold parityAnswer
    rw [singleTagPeek_eq hn]
    have hparity := peekTracerParity_true hh hm hfuel hb hhas
      (runState env.toEnv inputs).lastProvedHeight (runState env.toEnv inputs).lastProvedDigest htag
    rw [show Noun.cell (.atom (cord tag)) (.atom 0) = parityPath tag from rfl,
      peekNoun_parity hother hseeded hparity]
    exact decodeParityTraceBool_loob hn true
  refine ⟨?_, ?_⟩
  · intro path hpath
    simp only [List.mem_cons, List.not_mem_nil, or_false] at hpath
    rcases hpath with rfl | rfl | rfl
    · exact htrue _ (by simp)
    · exact htrue _ (by simp)
    · exact htrue _ (by simp)
  · obtain ⟨subj, form, hbuild, haccepts⟩ := singleTrace_accepts_iff hh (.atom 1)
      Kernel.nnsGenesisHeight seeded ⟨1, []⟩ oracleClaim (.atom 0) 1
    refine ⟨seeded, subj, form, hseeded, hbuild, haccepts.trans (and_iff_right ?_)⟩
    exact ⟨1, rfl, one_ne_zero⟩

end

/-- A block that registers the name that the third oracle claims. -/
def oracleNameBlock : ScanBlock where
  parent := 0
  height := Kernel.nnsGenesisHeight
  pageDigest := 7
  pageTxIds := [9]
  claims := [Kernel.paidClaim (cord "nockchain.nock") 7 9]

/-- Its row comes first, so that the formula of the oracle rejects. -/
theorem parity_oracles_true_taken :
    parityAnswer sampleCrates samplePeekEnv (runState sampleEnv [oracleNameBlock.noun])
      (buildParityTraceTransitionFullPeek sampleCrates) = .ok true ∧
    ∃ seeded subj form,
      buildRecursiveTransitionInputs sampleEnv (.atom 1) Kernel.nnsGenesisHeight seeded ⟨1, []⟩
        [oracleClaim] (.atom 0) 1 = .ok (subj, form) ∧ ¬ Yields subj form (.atom 0) := by
  have hrun : (ensureGenesisTld sampleEnv (runState sampleEnv [oracleNameBlock.noun]).accumulator
      |>.toOption.map fun seeded => accListHeadKey (sampleEnv.zBy.tap seeded))
        = some (keyOf sampleEnv oracleClaim.name).d0 ∧
      (keyOf sampleEnv oracleClaim.name).d0 ≠ 0 := by
    decide +kernel
  obtain ⟨hanswers, seeded, subj, form, hseeded, hbuild, haccepts⟩ :=
    @parity_oracles_true _ _ _ _ _ sampleCrates samplePeekEnv sampleEnv_hashLaws
      sampleEnv_mapLaws (by decide) sampleCrates_nounLaws [oracleNameBlock.noun]
  refine ⟨hanswers _ (by simp), seeded, subj, form, hbuild, fun hzero => ?_⟩
  rw [show ensureGenesisTld sampleEnv (runState sampleEnv [oracleNameBlock.noun]).accumulator
    = .ok seeded from hseeded] at hrun
  rcases haccepts.mp hzero with hkey | hhead
  · exact hrun.2 hkey
  · exact hhead (Option.some.inj hrun.1)

end NnsVerified.Hull
