import NnsVerified.Kernel.Proofs.RegistryProofs

/-!
# Roots and snapshots

The root of an accumulator is a function of its set of rows, and the encoding that it hashes
determines that set. So a snapshot with the root of an honest accumulator answers lookups as that
accumulator does, whatever map it is.
-/

namespace NnsVerified.Kernel

open NnsVerified.Hoon NnsVerified.Library

variable {Acc Vesl : Type} {env : Env Acc Vesl}

/-! ## Roots -/

/-- Accumulators with the same rows answer every lookup alike. -/
theorem Inserted.get_congr (hh : env.HashLaws) (hm : env.MapLaws) {acc acc' : Acc}
    (h : Inserted env acc) (h' : Inserted env acc')
    (hrows : ∀ e, e ∈ rows env acc ↔ e ∈ rows env acc') (name : Nat) :
    get env acc name = get env acc' name := by
  rw [get_eq hh hm (h.built hh hm), get_eq hh hm (h'.built hh hm)]
  congr 1
  refine Option.ext fun e => ?_
  rw [h.view_eq_some hh hm, h'.view_eq_some hh hm, hrows e]

/-- The root is canonical, and the encoding under it is binding. -/
theorem root_canonical_binding (hh : env.HashLaws) (hm : env.MapLaws) {acc acc' : Acc}
    (h : Inserted env acc) (h' : Inserted env acc') :
    ((∀ e, e ∈ rows env acc ↔ e ∈ rows env acc') → rootAtom env acc = rootAtom env acc') ∧
    (hashableAccumulator env acc = hashableAccumulator env acc' →
      (∀ e, e ∈ rows env acc ↔ e ∈ rows env acc') ∧
      ∀ name, get env acc name = get env acc' name) := by
  constructor
  · intro hrows
    unfold rootAtom root
    rw [hashable_eq_of_rows hh hm h h' hrows]
  · intro hhash
    have hrows := mem_rows_of_hashable_eq hhash
    exact ⟨hrows, h.get_congr hh hm h' hrows⟩

/-- Two rows, the first of which has a zero in a field and the second a field of several limbs. -/
def zeroRow : NnsAccumulatorEntry := ⟨1, 0, 20, nnsGenesisHeight, 7⟩

/-- A row whose owner is longer than a belt. -/
def wideRow : NnsAccumulatorEntry := ⟨2, 2 ^ 80, 21, nnsGenesisHeight, 7⟩

/-- The map in which one row was inserted after the other. -/
def rowThenRow (e e' : NnsAccumulatorEntry) : List (NnsNameKey × NnsAccumulatorEntry) :=
  [(keyOf sampleEnv e'.name, e'), (keyOf sampleEnv e.name, e)]

theorem root_canonical_binding_sample :
    rootAtom sampleEnv (rowThenRow zeroRow wideRow)
      = rootAtom sampleEnv (rowThenRow wideRow zeroRow) := by
  have hzero : insert sampleEnv [] 1 zeroRow = .ok [(keyOf sampleEnv 1, zeroRow)] := by
    decide +kernel
  have hwide : insert sampleEnv [] 2 wideRow = .ok [(keyOf sampleEnv 2, wideRow)] := by
    decide +kernel
  have hzeroWide : insert sampleEnv [(keyOf sampleEnv 1, zeroRow)] 2 wideRow
      = .ok (rowThenRow zeroRow wideRow) := by
    decide +kernel
  have hwideZero : insert sampleEnv [(keyOf sampleEnv 2, wideRow)] 1 zeroRow
      = .ok (rowThenRow wideRow zeroRow) := by
    decide +kernel
  have h : Inserted sampleEnv (rowThenRow zeroRow wideRow) := .put (.put .new hzero) hzeroWide
  have h' : Inserted sampleEnv (rowThenRow wideRow zeroRow) := .put (.put .new hwide) hwideZero
  refine (root_canonical_binding sampleEnv_hashLaws sampleEnv_mapLaws h h').1 fun e => ?_
  simp [rows, rowThenRow, sampleEnv, assocOps, or_comm]

/-! ## Snapshots -/

section

variable {s : State Acc Vesl} {v : VerifySnapshot}

/-- The answer to a snapshot whose jam is cued and has the expected root. -/
theorem verifyAccumulatorSnapshot_eq {n : Noun} {acc : Acc} {got : Option NnsAccumulatorEntry}
    (hcue : env.cue v.accJam = .ok n) (hclam : env.clamAccumulator n = some acc)
    (hroot : rootAtom env acc = .ok v.expectedRoot) (hget : get env acc v.entry.name = .ok got) :
    verifyAccumulatorSnapshot env s v
      = .ok ([.accumulatorSnapshotVerifyResult (decide (got = some v.entry))], s) := by
  unfold verifyAccumulatorSnapshot
  simp [hcue, hclam, hroot, hget, orCrash]

/-- A snapshot is answered with `%.y` only when its map finds the row and has the expected root. -/
theorem verifyAccumulatorSnapshot_true {effects : List Effect} {t : State Acc Vesl}
    (h : verifyAccumulatorSnapshot env s v = .ok (effects, t))
    (hyes : .accumulatorSnapshotVerifyResult true ∈ effects) :
    ∃ n acc, env.cue v.accJam = .ok n ∧ env.clamAccumulator n = some acc ∧
      rootAtom env acc = .ok v.expectedRoot ∧ get env acc v.entry.name = .ok (some v.entry) := by
  unfold verifyAccumulatorSnapshot at h
  obtain ⟨accCue, hmule, h⟩ := bind_eq_ok h
  rcases mule_eq_ok hmule with ⟨n, hcue, rfl⟩ | ⟨trace, -, rfl⟩
  · obtain ⟨acc, hclam, h⟩ := bind_eq_ok h
    obtain ⟨root, hroot, h⟩ := bind_eq_ok h
    split at h
    · obtain ⟨rfl, -⟩ := Prod.mk.inj (Except.ok.inj h)
      simp at hyes
    · rename_i heq
      obtain ⟨got, hget, h⟩ := bind_eq_ok h
      obtain ⟨rfl, -⟩ := Prod.mk.inj (Except.ok.inj h)
      have hgot : got = some v.entry := by simpa using hyes
      rw [not_not.mp heq] at hroot
      rw [hgot] at hget
      exact ⟨n, acc, hcue, orCrash_eq_ok.mp hclam, hroot, hget⟩
  · obtain ⟨rfl, -⟩ := Prod.mk.inj (Except.ok.inj h)
    simp at hyes

/-- A snapshot is answered with an error, or with a loobean. -/
theorem verifyAccumulatorSnapshot_answer {effects : List Effect} {t : State Acc Vesl}
    (h : verifyAccumulatorSnapshot env s v = .ok (effects, t)) :
    effects = [.accumulatorSnapshotVerifyError] ∨
      ∃ ok, effects = [.accumulatorSnapshotVerifyResult ok] := by
  unfold verifyAccumulatorSnapshot at h
  obtain ⟨accCue, -, h⟩ := bind_eq_ok h
  cases accCue with
  | error trace =>
    obtain ⟨rfl, -⟩ := Prod.mk.inj (Except.ok.inj h)
    exact Or.inl rfl
  | ok cued =>
    obtain ⟨acc, -, h⟩ := bind_eq_ok h
    obtain ⟨root, -, h⟩ := bind_eq_ok h
    split at h
    · obtain ⟨rfl, -⟩ := Prod.mk.inj (Except.ok.inj h)
      exact Or.inr ⟨false, rfl⟩
    · obtain ⟨got, -, h⟩ := bind_eq_ok h
      obtain ⟨rfl, -⟩ := Prod.mk.inj (Except.ok.inj h)
      exact Or.inr ⟨_, rfl⟩

end

/-- To hold a row is to find it. -/
theorem Inserted.mem_rows_iff_get (hh : env.HashLaws) (hm : env.MapLaws) {acc : Acc}
    (h : Inserted env acc) (e : NnsAccumulatorEntry) :
    e ∈ rows env acc ↔ get env acc e.name = .ok (some e) := by
  rw [h.mem_rows hh hm, get_eq hh hm (h.built hh hm), Except.ok.injEq]

/-- The roots of two accumulators do not collide. -/
def RootsDistinct (env : Env Acc Vesl) (acc acc' : Acc) : Prop :=
  ∀ r, rootAtom env acc = .ok r → rootAtom env acc' = .ok r →
    hashableAccumulator env acc = hashableAccumulator env acc'

/-- A snapshot that has the root of an accumulator is answered with `%.y` only for the rows of that
accumulator. -/
theorem verifyAccumulatorSnapshot_sound (hh : env.HashLaws) (hm : env.MapLaws) {acc : Acc}
    (hins : Inserted env acc) {s t : State Acc Vesl} {v : VerifySnapshot}
    (hroot : rootAtom env acc = .ok v.expectedRoot)
    (hcol : ∀ n acc', env.cue v.accJam = .ok n → env.clamAccumulator n = some acc' →
      RootsDistinct env acc' acc)
    {effects : List Effect} (h : verifyAccumulatorSnapshot env s v = .ok (effects, t))
    (hyes : .accumulatorSnapshotVerifyResult true ∈ effects) :
    get env acc v.entry.name = .ok (some v.entry) := by
  obtain ⟨n, acc', hcue, hclam, hroot', hget⟩ := verifyAccumulatorSnapshot_true h hyes
  have hhash := hcol n acc' hcue hclam v.expectedRoot hroot' hroot
  -- the lookup walked to a node of the map, which the encoding lists
  obtain ⟨k, -, hk⟩ := bind_eq_ok hget
  have hmem : v.entry ∈ rows env acc' := List.mem_map.mpr ⟨_, hm.get_mem_tap hk, rfl⟩
  exact (hins.mem_rows_iff_get hh hm v.entry).mp ((mem_rows_of_hashable_eq hhash v.entry).mp hmem)

/-- Snapshot verification against the root of a reachable accumulator is sound and complete. -/
theorem snapshot_sound_complete (hh : env.HashLaws) (hm : env.MapLaws) (hmold : env.MoldLaws)
    (hjam : env.JamLaws) (inputs : List Noun) (s : State Acc Vesl) (input : Noun)
    (v : VerifySnapshot) (hcause : softCause env input = some (.verifyAccumulatorSnapshot v))
    (hroot : rootAtom env (runState env inputs).accumulator = .ok v.expectedRoot) :
    -- soundness, for every jam
    ((∀ n acc, env.cue v.accJam = .ok n → env.clamAccumulator n = some acc →
        RootsDistinct env acc (runState env inputs).accumulator) →
      ∀ effects t, poke env s input = .ok (effects, t) →
        .accumulatorSnapshotVerifyResult true ∈ effects →
        get env (runState env inputs).accumulator v.entry.name = .ok (some v.entry)) ∧
    -- completeness, for the jam of the accumulator
    (v.accJam = env.jam (env.accumulatorNoun (runState env inputs).accumulator) →
      poke env s input = .ok ([.accumulatorSnapshotVerifyResult
        (decide (v.entry ∈ rows env (runState env inputs).accumulator))], s)) ∧
    -- to hold a row is to find it
    (v.entry ∈ rows env (runState env inputs).accumulator ↔
      get env (runState env inputs).accumulator v.entry.name = .ok (some v.entry)) := by
  have hins := (runInv hh hm inputs).inserted
  have hbuilt := hins.built hh hm
  have hpoke : poke env s input = verifyAccumulatorSnapshot env s v := poke_of_softCause s hcause
  refine ⟨?_, ?_, hins.mem_rows_iff_get hh hm v.entry⟩
  · intro hcol effects t hp hyes
    rw [hpoke] at hp
    exact verifyAccumulatorSnapshot_sound hh hm hins hroot hcol hp hyes
  · intro haccJam
    have hcue : env.cue v.accJam
        = .ok (env.accumulatorNoun (runState env inputs).accumulator) := by
      rw [haccJam]
      exact hjam _
    rw [hpoke, verifyAccumulatorSnapshot_eq hcue (hmold _ hbuilt) hroot (get_eq hh hm hbuilt _)]
    simp only [hins.mem_rows hh hm]

/-- The snapshot of the contested registry, with a row of its winner. -/
def contestedSnapshot (root : Nat) : VerifySnapshot where
  expectedRoot := root
  accJam := sampleEnv.jam (sampleEnv.accumulatorNoun
    (runState sampleEnv [contestedBlock.noun]).accumulator)
  entry := ⟨cord "a.nock", 3, 21, nnsGenesisHeight, 7⟩

theorem snapshot_sound_complete_contested : ∃ root,
    poke sampleEnv (fresh sampleEnv) (contestedSnapshot root).noun
      = .ok ([.accumulatorSnapshotVerifyResult true], fresh sampleEnv) ∧
    get sampleEnv (runState sampleEnv [contestedBlock.noun]).accumulator (cord "a.nock")
      = .ok (some ⟨cord "a.nock", 3, 21, nnsGenesisHeight, 7⟩) := by
  obtain ⟨root, hroot⟩ : ∃ root,
      rootAtom sampleEnv (runState sampleEnv [contestedBlock.noun]).accumulator = .ok root := by
    refine rootAtom_ok sampleEnv_hashLaws ?_
    decide +kernel
  obtain ⟨hsound, hcomplete, -⟩ := snapshot_sound_complete sampleEnv_hashLaws sampleEnv_mapLaws
    sampleEnv_moldLaws sampleEnv_jamLaws [contestedBlock.noun] (fresh sampleEnv)
    (contestedSnapshot root).noun (contestedSnapshot root)
    (softCause_verifyAccumulatorSnapshot _ _) hroot
  have hheld : (contestedSnapshot root).entry ∈
      rows sampleEnv (runState sampleEnv [contestedBlock.noun]).accumulator := by
    show (⟨cord "a.nock", 3, 21, nnsGenesisHeight, 7⟩ : NnsAccumulatorEntry) ∈ _
    decide +kernel
  have hpoke := hcomplete rfl
  rw [decide_eq_true hheld] at hpoke
  refine ⟨root, hpoke, hsound ?_ _ _ hpoke (List.mem_singleton.mpr rfl)⟩
  intro n acc hcue hclam r _ _
  have hjam := sampleEnv_jamLaws
    (sampleEnv.accumulatorNoun (runState sampleEnv [contestedBlock.noun]).accumulator)
  obtain rfl := Except.ok.inj (hjam.symm.trans hcue)
  have hmold := sampleEnv_moldLaws _
    ((runInv sampleEnv_hashLaws sampleEnv_mapLaws [contestedBlock.noun]).inserted.built
      sampleEnv_hashLaws sampleEnv_mapLaws)
  rw [Option.some.inj (hmold.symm.trans hclam)]

end NnsVerified.Kernel
