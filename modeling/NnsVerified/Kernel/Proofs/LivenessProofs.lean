import NnsVerified.Kernel.Proofs.RegistryProofs

/-!
# No block wedges the scanner

Whatever claims a linked block carries at the required height, the kernel accepts it, as long as the
height is a belt: a row stores the height as one leaf of the hashed accumulator.
-/

namespace NnsVerified.Kernel

open NnsVerified.Hoon NnsVerified.Library

variable {Acc Vesl : Type} {env : Env Acc Vesl} {s : State Acc Vesl} {bs : List ScanBlock}

section

variable (hh : env.HashLaws) (hm : env.MapLaws)

include hh hm

theorem scanAll_heights {acc : Acc} (h : scanAll env bs = .ok acc) (hins : Inserted env acc)
    {e : NnsAccumulatorEntry} (he : e ∈ rows env acc) :
    e = genesisTldEntry ∨ ∃ b ∈ bs, e.claimHeight = b.height := by
  have hview := (hins.mem_rows hh hm e).mp he
  rw [scanAll_view hh hm h (keyOf_based hh _)] at hview
  obtain ⟨kv, hfind, rfl⟩ := Option.map_eq_some_iff.mp hview
  rcases List.mem_cons.mp (List.mem_of_find?_eq_some hfind) with rfl | hmem
  · exact Or.inl rfl
  · obtain ⟨⟨b, c⟩, hbc, rfl⟩ := List.mem_map.mp hmem
    obtain ⟨b', hb', hmap⟩ := List.mem_flatMap.mp hbc
    obtain ⟨c', -, heq⟩ := List.mem_map.mp hmap
    obtain ⟨rfl, rfl⟩ := Prod.mk.inj heq
    exact Or.inr ⟨b', hb', rfl⟩

/-- A linked block at the required height is accepted when its height is a belt. -/
theorem RunInv.scanBlock_ok (h : RunInv env bs s) {c : ScanBlock}
    (hlink : s.boot = true ∨ c.parent = s.lastProvedDigest) (hheight : c.height = s.wantHeight)
    (hbelt : c.height < goldilocks) :
    ∃ root t, scanBlock env s c = .ok ([.scanBlockDone c.height c.pageDigest root], t) := by
  obtain ⟨seeded, hseed⟩ : ∃ seeded, Kernel.seedAccumulator env s = .ok seeded := by
    unfold Kernel.seedAccumulator
    split
    · obtain ⟨acc, hens, -⟩ := ensureGenesisTld_spec hh hm h.inserted
      exact ⟨acc, hens⟩
    · exact ⟨_, rfl⟩
  obtain ⟨hall, hins, hseeded⟩ := h.seedAccumulator hh hm hseed
  obtain ⟨acc, hscan, hins', -⟩ := scan_spec hh hm c hins
  have hall' : scanAll env (bs ++ [c]) = .ok acc := by
    obtain ⟨seeded₀, hnul, hrest⟩ := bind_eq_ok hall
    unfold scanAll
    rw [hnul, ok_bind]
    unfold scanFrom at hrest ⊢
    rw [List.foldlM_append, hrest]
    simp [hscan]
  have hrows : ∀ e ∈ rows env acc, e.claimHeight < goldilocks := by
    intro e he
    have hwant := h.wantHeight_eq
    rcases scanAll_heights hh hm hall' hins' he with rfl | ⟨b, hb, hbe⟩
    · show nnsGenesisHeight < goldilocks
      decide
    · rcases List.mem_append.mp hb with hb | hb
      · obtain ⟨i, hi, rfl⟩ := List.getElem_of_mem hb
        have hold := h.linked.heights i hi
        omega
      · rw [hbe, List.mem_singleton.mp hb]
        exact hbelt
  obtain ⟨root, hroot⟩ := rootAtom_ok hh hrows
  exact ⟨root, _, scanBlock_accepted hlink hheight hseed hscan hroot⟩

end

/-- No block below the Goldilocks prime wedges the scanner. -/
theorem scan_never_wedges (hh : env.HashLaws) (hm : env.MapLaws) (inputs : List Noun) (input : Noun)
    (c : ScanBlock) (hcause : softCause env input = some (.scanBlock c))
    (hlink : (runState env inputs).boot = true ∨
      c.parent = (runState env inputs).lastProvedDigest)
    (hheight : c.height = (runState env inputs).wantHeight) (hbelt : c.height < goldilocks) :
    ∃ root t, poke env (runState env inputs) input
      = .ok ([.scanBlockDone c.height c.pageDigest root], t) := by
  obtain ⟨root, t, hscan⟩ := (runInv hh hm inputs).scanBlock_ok hh hm hlink hheight hbelt
  exact ⟨root, t, (poke_of_softCause _ hcause).trans hscan⟩

/-- A block of claims with an empty name, a bare suffix, and a long name. -/
def oddBlock : ScanBlock where
  parent := 12345
  height := nnsGenesisHeight
  pageDigest := 7
  pageTxIds := [20]
  claims := [paidClaim 0 1 20, paidClaim (cord ".nock") 1 20, paidClaim (2 ^ 4096) 1 20]

theorem scan_never_wedges_oddBlock : ∃ root t, poke sampleEnv (fresh sampleEnv) oddBlock.noun
    = .ok ([.scanBlockDone nnsGenesisHeight 7 root], t) :=
  scan_never_wedges sampleEnv_hashLaws sampleEnv_mapLaws [] oddBlock.noun oddBlock
    (softCause_scanBlock _ _) (Or.inl rfl) rfl (by decide)

/-! ## Heights that are not belts -/

/-- The empty block at a distance from the genesis height. -/
def idleBlock (i : Nat) : ScanBlock := ⟨7, nnsGenesisHeight + i, 7, [], []⟩

/-- The kernel after the idle blocks up to a distance from the genesis height. -/
def idleState (i : Nat) : State (List (NnsNameKey × NnsAccumulatorEntry)) Unit where
  accumulator := [(keyOf sampleEnv nnsGenesisTldName, genesisTldEntry)]
  lastProvedHeight := nnsGenesisHeight + i
  lastProvedDigest := 7
  vesl := ()
  lastProved := none
  recursiveProof := none

theorem idleState_boot (n : Nat) : (idleState n).boot = false := by
  simp [State.boot, idleState]

theorem runState_idle (n : Nat) :
    runState sampleEnv ((List.range (n + 1)).map fun i => (idleBlock i).noun) = idleState n := by
  induction n with
  | zero => decide +kernel
  | succ n ih =>
    rw [List.range_succ, List.map_append]
    unfold runState at ih ⊢
    rw [final_append, ih]
    show nextState sampleEnv (idleState n) (idleBlock (n + 1)).noun = idleState (n + 1)
    obtain ⟨root, hroot⟩ : ∃ root, rootAtom sampleEnv (idleState n).accumulator = .ok root := by
      refine rootAtom_ok sampleEnv_hashLaws ?_
      intro e he
      obtain rfl := List.mem_singleton.mp he
      decide
    have hwant : (idleBlock (n + 1)).height = (idleState n).wantHeight := by
      unfold State.wantHeight
      rw [idleState_boot]
      rfl
    have hseed : seedAccumulator sampleEnv (idleState n) = .ok (idleState n).accumulator := by
      unfold seedAccumulator
      rw [idleState_boot]
      rfl
    have hnext := scanBlock_accepted (c := idleBlock (n + 1)) (Or.inr rfl) hwant hseed rfl hroot
    rw [nextState_of_ok ((poke_scanBlock _ _ _).trans hnext)]
    rfl

/-- The block at the Goldilocks prime, with one valid claim. -/
def beltBlock : ScanBlock where
  parent := 7
  height := goldilocks
  pageDigest := 8
  pageTxIds := [20]
  claims := [paidClaim (cord "a.nock") 1 20]

theorem beltBlock_trapped :
    (poke sampleEnv (idleState (goldilocks - 1 - nnsGenesisHeight)) beltBlock.noun).map Prod.fst
      = .ok [.scanBlockError .accumulatorRootTrap] := by
  decide +kernel

/-- A block whose height is not a belt can make the root trap. -/
theorem scan_wedges_at_goldilocks : sampleEnv.HashLaws ∧ sampleEnv.MapLaws ∧
    ¬∀ (inputs : List Noun) (input : Noun) (c : ScanBlock),
      softCause sampleEnv input = some (.scanBlock c) →
      (runState sampleEnv inputs).boot = true ∨
        c.parent = (runState sampleEnv inputs).lastProvedDigest →
      c.height = (runState sampleEnv inputs).wantHeight →
      ∃ root t, poke sampleEnv (runState sampleEnv inputs) input
        = .ok ([.scanBlockDone c.height c.pageDigest root], t) := by
  refine ⟨sampleEnv_hashLaws, sampleEnv_mapLaws, fun h => ?_⟩
  have hstate := runState_idle (goldilocks - 1 - nnsGenesisHeight)
  obtain ⟨root, t, hpoke⟩ := h _ beltBlock.noun beltBlock (softCause_scanBlock _ _)
    (by rw [hstate]; exact Or.inr rfl) (by rw [hstate]; decide)
  have htrap := beltBlock_trapped
  rw [hstate] at hpoke
  rw [hpoke] at htrap
  simp [Except.map] at htrap

end NnsVerified.Kernel
