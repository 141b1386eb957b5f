import NnsVerified.Kernel.Proofs.LabelProofs
import NnsVerified.Kernel.Proofs.ListViewProofs
import NnsVerified.Kernel.Proofs.LivenessProofs

/-!
# The log of accepted blocks

Two kernels that accept blocks of one chain accept them in one order, so the log of the one that is
behind is a prefix of the log of the other, and the rows that it holds are held by the other too. On
a log whose heights are belts the kernel answers: its root is computed, and the poke of the genesis
proof returns.
-/

namespace NnsVerified.Kernel

open NnsVerified.Hoon NnsVerified.Library

variable {Acc Vesl : Type} {env : Env Acc Vesl} {s : State Acc Vesl} {bs bs' : List ScanBlock}

/-- The block at each height of a list is the one that a chain has there. -/
def DrawnFrom (blockAt : Nat → Option ScanBlock) (bs : List ScanBlock) : Prop :=
  ∀ b ∈ bs, blockAt b.height = some b

/-- Of two linked lists of blocks of one chain, the shorter one is a prefix of the longer one. -/
theorem Linked.prefix_of_length_le {blockAt : Nat → Option ScanBlock} (h : Linked bs)
    (h' : Linked bs') (hdrawn : DrawnFrom blockAt bs) (hdrawn' : DrawnFrom blockAt bs')
    (hle : bs.length ≤ bs'.length) : bs <+: bs' := by
  refine List.prefix_iff_eq_take.mpr (List.ext_getElem (by simp [hle]) fun i hi hi' => ?_)
  rw [List.getElem_take]
  have hat := hdrawn _ (List.getElem_mem hi)
  have hat' := hdrawn' _ (List.getElem_mem (Nat.lt_of_lt_of_le hi hle))
  rw [h.heights i hi] at hat
  rw [h'.heights i (Nat.lt_of_lt_of_le hi hle), hat] at hat'
  exact Option.some.inj hat'

theorem cursorHeight_le (h : cursorHeight bs ≤ cursorHeight bs') : bs.length ≤ bs'.length := by
  unfold cursorHeight at h
  by_cases hbs : bs = []
  · simp [hbs]
  · have hpos := List.length_pos_of_ne_nil hbs
    have hgenesis : 0 < nnsGenesisHeight := by decide
    by_cases hbs' : bs' = []
    · rw [if_neg hbs, if_pos hbs'] at h
      omega
    · rw [if_neg hbs, if_neg hbs'] at h
      omega

section

variable (hh : env.HashLaws) (hm : env.MapLaws)

include hh hm

/-- The rows that a prefix of the blocks makes are kept by the rest of them. -/
theorem scanAll_view_prefix {acc acc' : Acc} (hpre : bs <+: bs') (hscan : scanAll env bs = .ok acc)
    (hscan' : scanAll env bs' = .ok acc') {k : NnsNameKey} (hk : k.Based)
    {e : NnsAccumulatorEntry} (h : env.zBy.view acc k = some e) :
    env.zBy.view acc' k = some e := by
  obtain ⟨rest, rfl⟩ := hpre
  have happend : validClaimsOf (bs ++ rest) = validClaimsOf bs ++ validClaimsOf rest :=
    List.flatMap_append
  rw [scanAll_view hh hm hscan hk] at h
  obtain ⟨kv, hfind, rfl⟩ := Option.map_eq_some_iff.mp h
  rw [scanAll_view hh hm hscan' hk, happend, List.map_append, ← List.cons_append,
    List.find?_append, hfind]
  rfl

theorem nul_view (name : Nat) :
    env.zBy.view env.zBy.nul (keyOf env name) = none :=
  MapOps.Lawful.view_nul hm (keyOf_based hh name)

/-- A name that is not reserved has the row of its first valid claim, also before the first block. -/
theorem RunInv.get_name (h : RunInv env bs s) {name : Nat} (hname : name ≠ nnsGenesisTldName)
    (hkeys : ∀ a ∈ nnsGenesisTldName :: (validClaimsOf bs).map fun bc => bc.2.name,
      keyOf env a = keyOf env name → a = name) :
    get env s.accumulator name = .ok (((validClaimsOf bs).find? fun bc => bc.2.name = name).map
      fun bc => bc.1.entry bc.2) := by
  have htld : keyOf env nnsGenesisTldName ≠ keyOf env name :=
    fun heq => hname (hkeys _ List.mem_cons_self heq).symm
  have hscanned : scanAll env bs = .ok s.accumulator → env.zBy.view s.accumulator (keyOf env name)
      = ((validClaimsOf bs).find? fun bc => bc.2.name = name).map fun bc => bc.1.entry bc.2 := by
    intro hscan
    rw [scanAll_view hh hm hscan (keyOf_based hh name),
      List.find?_cons_of_neg (by simpa using htld), find?_claimBinding fun bc hbc =>
        hkeys _ (List.mem_cons_of_mem _ (List.mem_map.mpr ⟨bc, hbc, rfl⟩))]
  rw [get_eq hh hm (h.inserted.built hh hm)]
  refine congrArg Except.ok ?_
  by_cases hbs : bs = []
  · rcases h.start hbs with hnul | hseeded
    · rw [hnul, nul_view hh hm, hbs]
      rfl
    · refine hscanned ?_
      rw [hbs, scanAll, hseeded]
      rfl
  · exact hscanned (h.scanned hbs).1

/-! ## Bounds -/

/-- Each row is the reserved one or that of a valid claim. -/
theorem RunInv.mem_rows (h : RunInv env bs s) {e : NnsAccumulatorEntry}
    (he : e ∈ rows env s.accumulator) :
    e ∈ genesisTldEntry :: (validClaimsOf bs).map fun bc => bc.1.entry bc.2 := by
  have hscan : ∀ {acc : Acc}, scanAll env bs = .ok acc → e ∈ rows env acc → Inserted env acc →
      e ∈ genesisTldEntry :: (validClaimsOf bs).map fun bc => bc.1.entry bc.2 := by
    intro acc hscan he hins
    have hview := (hins.mem_rows hh hm e).mp he
    rw [scanAll_view hh hm hscan (keyOf_based hh _)] at hview
    obtain ⟨kv, hfind, rfl⟩ := Option.map_eq_some_iff.mp hview
    rcases List.mem_cons.mp (List.mem_of_find?_eq_some hfind) with rfl | hmem
    · exact List.mem_cons_self
    · obtain ⟨bc, hbc, rfl⟩ := List.mem_map.mp hmem
      exact List.mem_cons_of_mem _ (List.mem_map.mpr ⟨bc, hbc, rfl⟩)
  by_cases hbs : bs = []
  · rcases h.start hbs with hnul | hseeded
    · rw [hnul] at he
      have hview := ((.new : Inserted env env.zBy.nul).mem_rows hh hm e).mp he
      rw [nul_view hh hm] at hview
      cases hview
    · refine hscan ?_ he h.inserted
      rw [hbs, scanAll, hseeded]
      rfl
  · exact hscan (h.scanned hbs).1 he h.inserted

theorem RunInv.rootAtom_ok (h : RunInv env bs s) (hbelt : ∀ b ∈ bs, b.height < goldilocks) :
    ∃ root, rootAtom env s.accumulator = .ok root := by
  refine Kernel.rootAtom_ok hh fun e he => ?_
  rcases List.mem_cons.mp (h.mem_rows hh hm he) with rfl | hmem
  · show nnsGenesisHeight < goldilocks
    decide
  · obtain ⟨⟨b, claim⟩, hbc, rfl⟩ := List.mem_map.mp hmem
    obtain ⟨b', hb', hmap⟩ := List.mem_flatMap.mp hbc
    obtain ⟨claim', -, heq⟩ := List.mem_map.mp hmap
    obtain ⟨rfl, rfl⟩ := Prod.mk.inj heq
    exact hbelt b' hb'

/-- A registry has at most one row for each valid claim, and the reserved one. -/
theorem RunInv.size_le (h : RunInv env bs s) :
    size env s.accumulator ≤ (validClaimsOf bs).length + 1 := by
  have hnodup : (rows env s.accumulator).Nodup := by
    have hnames := h.inserted.names_nodup hh hm
    rw [show ((env.zBy.tap s.accumulator).map fun row => row.2.name)
      = (rows env s.accumulator).map NnsAccumulatorEntry.name by
        rw [rows, List.map_map]
        rfl] at hnames
    exact hnames.of_map _
  have hle := (hnodup.subperm fun e he => h.mem_rows hh hm he).length_le
  rw [← h.inserted.length_toList hh hm, toList, List.length_map]
  rwa [rows, List.length_map, List.length_cons, List.length_map] at hle

/-! ## The genesis proof -/

/-- The prover comes to an end, with a proof or without. -/
def ProverEnds (env : Env Acc Vesl) : Prop :=
  ∀ subj form br bh, env.proveComputation subj form br bh ≠ .error .hang

omit hh hm in
theorem attemptProof_ends (hprover : ProverEnds env) {root : Nat}
    (hroot : rootAtom env s.accumulator = .ok root) (subj form : Noun) :
    ∃ attempt, attemptProof env s subj form = .ok attempt := by
  have hends := hprover subj form root s.lastProvedHeight
  unfold attemptProof starkBind
  simp only [hroot, ok_bind, pure_eq_ok]
  cases hprove : env.proveComputation subj form root s.lastProvedHeight with
  | ok pr => exact ⟨_, rfl⟩
  | error e =>
    cases e with
    | bail trace => exact ⟨_, rfl⟩
    | hang => exact absurd hprove hends

/-- The poke of the genesis proof returns, whatever the prover says. -/
theorem RunInv.proveRecursiveGenesis_ok (h : RunInv env bs s) (hboot : bs = [])
    (hprover : ProverEnds env) (hfuel : traceBudget ≤ env.fuel) :
    ∃ r, proveRecursiveGenesis env s = .ok r := by
  obtain ⟨seeded, hseeded, -⟩ := ensureGenesisTld_spec hh hm h.inserted
  obtain ⟨dryOk, hdry⟩ : ∃ ok, dryRun env (buildGenesisRecursiveInputs nnsGenesisHeight 0).1
      (buildGenesisRecursiveInputs nnsGenesisHeight 0).2 = .ok ok := dryRun_ok hfuel rfl
  have hnext : RunInv env bs { s with accumulator := seeded } :=
    h.reject hh hm rfl rfl (Or.inr hseeded)
  obtain ⟨root, hroot⟩ := hnext.rootAtom_ok hh hm (by simp [hboot])
  obtain ⟨attempt, hattempt⟩ := attemptProof_ends hprover hroot
    (buildGenesisRecursiveInputs nnsGenesisHeight 0).1
    (buildGenesisRecursiveInputs nnsGenesisHeight 0).2
  unfold proveRecursiveGenesis
  rw [hseeded, ok_bind]
  dsimp only
  rw [hdry, ok_bind, hattempt]
  cases attempt with
  | error reason => exact ⟨_, rfl⟩
  | ok proof => exact ⟨_, rfl⟩

end

end NnsVerified.Kernel
