import NnsVerified.Kernel.Proofs.CursorProofs

/-!
# Failing pokes

A poke that reports an error leaves the state alone, with one exception: before the first block is
accepted, `%scan-block` and `%prove-recursive-genesis` may leave the reserved row behind.
-/

namespace NnsVerified.Kernel

open NnsVerified.Hoon NnsVerified.Library

variable {Acc Vesl : Type} {env : Env Acc Vesl} {s t : State Acc Vesl} {effects : List Effect}

/-- A failing step changes the accumulator at most, and that only by seeding it. -/
theorem PokeStep.of_error {cause : Option Cause} (h : PokeStep env s cause effects t)
    (herr : ∃ e ∈ effects, e.isError = true) :
    t = { s with accumulator := t.accumulator } ∧
      (t.accumulator = s.accumulator ∨
        ensureGenesisTld env s.accumulator = .ok t.accumulator ∧
          ((∃ c, cause = some (.scanBlock c)) ∨ cause = some .proveRecursiveGenesis)) := by
  obtain ⟨e, he, herr⟩ := herr
  cases h with
  | same hdone => exact ⟨rfl, Or.inl rfl⟩
  | proved lp rp hok =>
    rw [(hok e he).1] at herr
    exact absurd herr (by simp)
  | graft tag body efx vesl =>
    obtain ⟨n, -, rfl⟩ := List.mem_map.mp he
    simp [Effect.isError] at herr
  | genesisFailed dryOk trace hseed => exact ⟨rfl, Or.inr ⟨hseed, Or.inr rfl⟩⟩
  | genesisProved dryOk proof lp rp hseed =>
    simp only [List.mem_cons, List.not_mem_nil, or_false] at he
    rcases he with rfl | rfl <;> simp [Effect.isError] at herr
  | scanRejected c e hseed =>
    refine ⟨rfl, ?_⟩
    unfold seedAccumulator at hseed
    split at hseed
    · exact Or.inr ⟨hseed, Or.inl ⟨c, rfl⟩⟩
    · exact Or.inl (Except.ok.inj hseed).symm
  | scanAccepted hlink hheight hseed hscan hroot =>
    obtain rfl := List.mem_singleton.mp he
    simp [Effect.isError] at herr

/-- A failing poke on a reachable state returns that state, or that state with the reserved row
seeded into its empty accumulator. -/
theorem failed_poke_atomic (hh : env.HashLaws) (hm : env.MapLaws) (inputs : List Noun) (input : Noun)
    (hp : poke env (runState env inputs) input = .ok (effects, t))
    (herr : ∃ e ∈ effects, e.isError = true) :
    t = { runState env inputs with accumulator := t.accumulator } ∧
    (t.accumulator = (runState env inputs).accumulator ∨
      runBlocks env inputs = [] ∧ (runState env inputs).accumulator = env.zBy.nul ∧
      ensureGenesisTld env env.zBy.nul = .ok t.accumulator ∧
      ((∃ c, softCause env input = some (.scanBlock c)) ∨
        softCause env input = some .proveRecursiveGenesis)) ∧
    (runBlocks env inputs ≠ [] → t = runState env inputs) := by
  have hinv := runInv hh hm inputs
  obtain ⟨hframe, hacc⟩ := (poke_step hp).of_error herr
  have hchange : t.accumulator = (runState env inputs).accumulator ∨
      runBlocks env inputs = [] ∧ (runState env inputs).accumulator = env.zBy.nul ∧
      ensureGenesisTld env env.zBy.nul = .ok t.accumulator ∧
      ((∃ c, softCause env input = some (.scanBlock c)) ∨
        softCause env input = some .proveRecursiveGenesis) := by
    rcases hacc with hsame | ⟨hens, hcause⟩
    · exact Or.inl hsame
    · by_cases hblocks : runBlocks env inputs = []
      · rcases hinv.start hblocks with hnul | hseeded
        · rw [hnul] at hens
          exact Or.inr ⟨hblocks, hnul, hens, hcause⟩
        · have hidem := ensureGenesisTld_idem hh hm .new hseeded
          rw [hidem] at hens
          exact Or.inl (Except.ok.inj hens).symm
      · have hseeded : ensureGenesisTld env (runState env inputs).accumulator
            = .ok (runState env inputs).accumulator := (hinv.scanned hblocks).2
        rw [hseeded] at hens
        exact Or.inl (Except.ok.inj hens).symm
  refine ⟨hframe, hchange, fun hblocks => ?_⟩
  rcases hchange with hsame | ⟨hnil, -⟩
  · rw [hframe, hsame]
  · exact absurd hnil hblocks

/-- A block at the wrong height. -/
def earlyBlock : ScanBlock := ⟨0, nnsGenesisHeight + 1, 7, [], []⟩

/-- The fresh kernel with the reserved row. -/
def seededState : State (List (NnsNameKey × NnsAccumulatorEntry)) Unit :=
  { fresh sampleEnv with accumulator := [(keyOf sampleEnv nnsGenesisTldName, genesisTldEntry)] }

theorem earlyBlock_rejected : poke sampleEnv (fresh sampleEnv) earlyBlock.noun
    = .ok ([.scanBlockError .heightNotSuccessor], seededState) := by
  decide +kernel

theorem failed_poke_atomic_earlyBlock :
    seededState = { fresh sampleEnv with accumulator := seededState.accumulator } :=
  (failed_poke_atomic sampleEnv_hashLaws sampleEnv_mapLaws [] earlyBlock.noun earlyBlock_rejected
    ⟨_, List.mem_singleton.mpr rfl, rfl⟩).1

/-- A rejected block at boot changes the state. -/
theorem failed_poke_changes_state : ¬∀ (inputs : List Noun) (input : Noun) (effects : List Effect)
    (t : State (List (NnsNameKey × NnsAccumulatorEntry)) Unit),
    poke sampleEnv (runState sampleEnv inputs) input = .ok (effects, t) →
    (∃ e ∈ effects, e.isError = true) → t = runState sampleEnv inputs := by
  intro h
  have hsame : seededState = fresh sampleEnv :=
    h [] earlyBlock.noun _ _ earlyBlock_rejected ⟨_, List.mem_singleton.mpr rfl, rfl⟩
  have hacc := congrArg State.accumulator hsame
  simp [seededState, fresh, sampleEnv, assocOps] at hacc

end NnsVerified.Kernel
