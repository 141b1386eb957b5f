import NnsVerified.Hull.Proofs.ReplicaProofs

/-!
# The follower catches up

On a chain whose blocks are linked, every pass that reaches the node takes the follower on by a whole
batch, or to the last final block. So after enough of them the kernel has accepted every final
block, each once and in order, whatever passes failed before.
-/

namespace NnsVerified.Hull

open NnsVerified.Hoon NnsVerified.Library NnsVerified.Kernel

variable {H Z L Acc Vesl : Type} [DecidableEq H] {c : Crates H Z L} {env : PeekEnv Acc Vesl}
  {sent : List Noun}

/-! ## Linked chains -/

/-- The blocks of a chain from the genesis height on, as the kernel gets them. -/
def chainLog (kernelBlockAt : UInt64 → ScanBlock) (n : Nat) : List ScanBlock :=
  (List.range n).map fun i => kernelBlockAt (UInt64.ofNat (Kernel.nnsGenesisHeight + i))

/-- A chain of linked blocks up to a top, each of which the follower has a poke for. -/
structure LinkedChain (c : Crates H Z L) extends ServedChain where
  kernelBlockAt : UInt64 → ScanBlock
  prepared : ∀ h, blockOf c (blockAt h) = .ok (kernelBlockAt h)
  wide : ∀ h, (blockAt h).parent.length = 40 ∧ (blockAt h).pageDigest.length = 40
  top : UInt64
  linked : ∀ n, n + 1 ≤ top.toNat →
    (blockAt (UInt64.ofNat (n + 1))).parent = (blockAt (UInt64.ofNat n)).pageDigest
  /-- A row stores the height as one belt. -/
  belt : top.toNat < goldilocks
  /-- The hull counts the rows in a `u64`. -/
  claims : (validClaimsOf (chainLog kernelBlockAt top.toNat)).length + 1 < 2 ^ 64

namespace LinkedChain

variable (chain : LinkedChain c)

/-- The first blocks of the chain, as the kernel gets them. -/
def log (n : Nat) : List ScanBlock := chainLog chain.kernelBlockAt n

/-- The fetched blocks from a height on. -/
def fetched (height n : Nat) : List ScanBlockFetch :=
  (List.range n).map fun i => chain.blockAt (UInt64.ofNat (height + i))

theorem log_succ (n : Nat) : chain.log (n + 1)
    = chain.log n ++ [chain.kernelBlockAt (UInt64.ofNat (Kernel.nnsGenesisHeight + n))] := by
  unfold log chainLog
  rw [List.range_succ, List.map_append]
  rfl

@[simp] theorem length_log (n : Nat) : (chain.log n).length = n := by
  simp [log, chainLog]

theorem log_prefix {m n : Nat} (h : m ≤ n) : chain.log m <+: chain.log n := by
  obtain ⟨d, rfl⟩ := Nat.exists_eq_add_of_le h
  unfold log chainLog
  rw [List.range_add, List.map_append]
  exact List.prefix_append _ _

theorem fetched_succ (height n : Nat) : chain.fetched height (n + 1)
    = chain.blockAt (UInt64.ofNat height) :: chain.fetched (height + 1) n := by
  unfold fetched
  rw [List.range_succ_eq_map, List.map_cons, List.map_map]
  congr 1
  refine List.map_congr_left fun i _ => ?_
  show chain.blockAt (UInt64.ofNat (height + (i + 1))) = _
  rw [Nat.add_right_comm, Nat.add_assoc]

theorem kernelBlockAt_eq (n : Nat) : ∃ ids claims, chain.kernelBlockAt (UInt64.ofNat n)
    = toScanBlock (chain.blockAt (UInt64.ofNat n)).parent (UInt64.ofNat n)
        (chain.blockAt (UInt64.ofNat n)).pageDigest ids claims := by
  obtain ⟨ids, claims, -, -, h⟩ := blockOf_eq_ok.mp (chain.prepared (UInt64.ofNat n))
  rw [chain.height_eq] at h
  exact ⟨ids, claims, h⟩

theorem kernelBlockAt_height {n : Nat} (h : n ≤ chain.top.toNat) :
    (chain.kernelBlockAt (UInt64.ofNat n)).height = n := by
  rw [blockOf_height (chain.prepared _), chain.height_eq,
    UInt64.toNat_ofNat_of_lt' (Nat.lt_of_le_of_lt h chain.top.toNat_lt)]

theorem kernelBlockAt_pageDigest (n : Nat) : (chain.kernelBlockAt (UInt64.ofNat n)).pageDigest
    = leValue (chain.blockAt (UInt64.ofNat n)).pageDigest := by
  obtain ⟨ids, claims, h⟩ := chain.kernelBlockAt_eq n
  rw [h]
  rfl

theorem kernelBlockAt_parent (n : Nat) : (chain.kernelBlockAt (UInt64.ofNat n)).parent
    = leValue (chain.blockAt (UInt64.ofNat n)).parent := by
  obtain ⟨ids, claims, h⟩ := chain.kernelBlockAt_eq n
  rw [h]
  rfl

theorem kernelBlockAt_linked {n : Nat} (h : n + 1 ≤ chain.top.toNat) :
    (chain.kernelBlockAt (UInt64.ofNat (n + 1))).parent
      = (chain.kernelBlockAt (UInt64.ofNat n)).pageDigest := by
  rw [kernelBlockAt_parent, kernelBlockAt_pageDigest, chain.linked n h]

end LinkedChain

/-! ## Honest passes -/

/-- A pass that reads the chain, where it reads anything. -/
structure Tick.Honest (chain : LinkedChain c) (tick : Tick) : Prop where
  tip : ∀ tip, tick.currentChainTip = .ok tip → tip ≤ chain.top
  batch : 1 ≤ tick.batchMax
  serves : tick.Serves chain.toServedChain

/-- A pass that reaches the node, at least at a tip and with a batch size. -/
structure Tick.Reaches (tip batch : Nat) (tick : Tick) : Prop where
  tip : ∃ t, tick.currentChainTip = .ok t ∧ tip ≤ t.toNat
  batch : batch ≤ tick.batchMax.toNat
  fetches : ∀ t, tick.currentChainTip = .ok t → ∀ heights : List UInt64,
    heights.Pairwise (· < ·) → (∀ h ∈ heights, h ≤ t) → ∃ blocks, tick.prefetch heights = .ok blocks

/-- How many blocks from the genesis height on are final at a tip. -/
def finalBlocks (tip : Nat) : Nat := tip + 1 - (Kernel.nnsGenesisHeight + 10)

/-! ## A kernel that has scanned the chain to a height -/

variable {chain : LinkedChain c} {k : Nat}

/-- The kernel has accepted the first `k` blocks of the chain. -/
structure ScannedTo (chain : LinkedChain c) (env : Env Acc Vesl) (k : Nat) (sent : List Noun) :
    Prop where
  log : runBlocks env sent = chain.log k
  le : k = 0 ∨ Kernel.nnsGenesisHeight + k ≤ chain.top.toNat

section

variable (hn : c.NounLaws) (hh : env.HashLaws) (hm : env.MapLaws)

include hh hm

theorem ScannedTo.runInv (h : ScannedTo chain env.toEnv k sent) :
    RunInv env.toEnv (chain.log k) (runState env.toEnv sent) := by
  rw [← h.log]
  exact Kernel.runInv hh hm sent

theorem ScannedTo.wantHeight (h : ScannedTo chain env.toEnv k sent) :
    (runState env.toEnv sent).wantHeight = Kernel.nnsGenesisHeight + k := by
  rw [(h.runInv hh hm).wantHeight_eq, LinkedChain.length_log]

theorem ScannedTo.boot_iff (h : ScannedTo chain env.toEnv k sent) :
    (runState env.toEnv sent).boot = true ↔ k = 0 := by
  rw [(h.runInv hh hm).boot_iff, ← List.length_eq_zero_iff, LinkedChain.length_log]

theorem ScannedTo.digest (h : ScannedTo chain env.toEnv (k + 1) sent) :
    (runState env.toEnv sent).lastProvedDigest
      = leValue (chain.blockAt (UInt64.ofNat (Kernel.nnsGenesisHeight + k))).pageDigest := by
  rw [(h.runInv hh hm).digest, LinkedChain.log_succ, cursorDigest, List.getLast?_concat]
  exact chain.kernelBlockAt_pageDigest _

omit hh hm in
theorem ScannedTo.belts (h : ScannedTo chain env.toEnv k sent) {b : ScanBlock}
    (hb : b ∈ chain.log k) : b.height < goldilocks := by
  obtain ⟨i, hi, rfl⟩ := List.mem_map.mp hb
  have hlt := List.mem_range.mp hi
  have hbelt := chain.belt
  have hle : Kernel.nnsGenesisHeight + i ≤ chain.top.toNat := by
    have hscanned := h.le
    omega
  rw [chain.kernelBlockAt_height hle]
  omega

/-- The hull reads the cursor. -/
theorem ScannedTo.followerScanState (hn : c.NounLaws) (h : ScannedTo chain env.toEnv k sent) :
    ∃ st, followerScanState c env sent = .ok st ∧ Mirrors st (runState env.toEnv sent) := by
  have hinv := h.runInv hh hm
  obtain ⟨seeded, hseeded, -⟩ := ensureGenesisTld_spec hh hm hinv.inserted
  obtain ⟨root, hroot⟩ := hinv.rootAtom_ok hh hm fun b hb => h.belts hb
  obtain ⟨value, hvalue⟩ : ∃ value, peekScanState env.toEnv (runState env.toEnv sent) = .ok value := by
    unfold peekScanState
    rw [hroot]
    exact ⟨_, rfl⟩
  have hanswer : scanStateAnswer env.toEnv (runState env.toEnv sent)
      = .ok (Noun.tuple (.atom 0) [.atom 0, value]) := by
    rw [scanStateAnswer, hvalue]
    rfl
  have hpeek : peekNoun env (runState env.toEnv sent) (buildScanStatePeek c)
      = .ok (Noun.tuple (.atom 0) [.atom 0, value]) := by
    rw [buildScanStatePeek_eq hn, peekNoun_path, hseeded, ok_bind]
    show (peekScanState env.toEnv (runState env.toEnv sent)).bind _ = _
    rw [hvalue]
    rfl
  have hheight : (runState env.toEnv sent).lastProvedHeight < 2 ^ 64 := by
    have hle := h.le
    have htop := chain.top.toNat_lt
    rw [hinv.height, cursorHeight]
    split
    · omega
    · rename_i hne
      rw [LinkedChain.length_log]
      have hk : k ≠ 0 := fun hzero => hne (by rw [hzero]; rfl)
      omega
  have hsize : size env.toEnv (runState env.toEnv sent).accumulator < 2 ^ 64 := by
    refine Nat.lt_of_le_of_lt (hinv.size_le hh hm) ?_
    have hlong : k ≤ chain.top.toNat := by
      have hle := h.le
      omega
    obtain ⟨rest, hrest⟩ := chain.log_prefix hlong
    have hclaims := chain.claims
    rw [show chainLog chain.kernelBlockAt chain.top.toNat = chain.log k ++ rest from hrest.symm,
      show validClaimsOf (chain.log k ++ rest) = validClaimsOf (chain.log k) ++ validClaimsOf rest
        from List.flatMap_append, List.length_append] at hclaims
    omega
  obtain ⟨st, hst⟩ := (decodeScanState_answer hn hanswer).2 hheight hsize
  refine ⟨st, ?_, (decodeScanState_answer hn hanswer).1 st hst⟩
  unfold Hull.followerScanState
  rw [hpeek]
  show (decodeScanState c _).mapError _ = _
  rw [hst]
  rfl

/-- The kernel accepts the next block of the chain. -/
theorem ScannedTo.accepts (h : ScannedTo chain env.toEnv k sent)
    (hle : Kernel.nnsGenesisHeight + k ≤ chain.top.toNat) :
    (acceptedBlock env.toEnv (runState env.toEnv sent)
      (chain.kernelBlockAt (UInt64.ofNat (Kernel.nnsGenesisHeight + k))).noun).isSome := by
  have hinv := h.runInv hh hm
  have hheight := chain.kernelBlockAt_height hle
  have hbelt := chain.belt
  rw [acceptedBlock_iff_linked hh hm hinv (hheight.trans (h.wantHeight hh hm).symm) (by omega)]
  cases k with
  | zero => exact Or.inl ((h.boot_iff hh hm).mpr rfl)
  | succ k =>
    right
    rw [h.digest hh hm, ← Nat.add_assoc, chain.kernelBlockAt_linked (by omega),
      LinkedChain.kernelBlockAt_pageDigest]

/-- The loop accepts the next block of the chain. -/
theorem ScannedTo.applyBlock (hn : c.NounLaws) (h : ScannedTo chain env.toEnv k sent)
    (hle : Kernel.nnsGenesisHeight + k < chain.top.toNat) :
    ∃ done, (applyBlock c env sent
        (chain.blockAt (UInt64.ofNat (Kernel.nnsGenesisHeight + k)))).2 = .ok done ∧
      ScannedTo chain env.toEnv (k + 1) (applyBlock c env sent
        (chain.blockAt (UInt64.ofNat (Kernel.nnsGenesisHeight + k)))).1 := by
  have haccepts := h.accepts hh hm (by omega)
  have hof := chain.prepared (UInt64.ofNat (Kernel.nnsGenesisHeight + k))
  rcases applyBlock_log env hn sent (chain.blockAt (UInt64.ofNat
    (Kernel.nnsGenesisHeight + k))) with ⟨b, done, hb, -, hdone, hlog⟩ | ⟨hnone, -⟩
  · obtain rfl := Except.ok.inj (hof.symm.trans hb)
    exact ⟨done, hdone, by rw [hlog, h.log, LinkedChain.log_succ], Or.inr (by omega)⟩
  · rw [hnone _ hof] at haccepts
    cases haccepts

/-- A batch of the next blocks is accepted as a whole. -/
theorem ScannedTo.applyBlocks (hn : c.NounLaws) (h : ScannedTo chain env.toEnv k sent) (n : Nat)
    (hle : n = 0 ∨ Kernel.nnsGenesisHeight + k + n ≤ chain.top.toNat)
    (lastDone : Option ScanBlockDone) :
    ScannedTo chain env.toEnv (k + n) (applyBlocks c env sent lastDone
      (chain.fetched (Kernel.nnsGenesisHeight + k) n)).1 ∧
    ∃ lastDone', (applyBlocks c env sent lastDone
        (chain.fetched (Kernel.nnsGenesisHeight + k) n)).2 = .ok lastDone' ∧
      (lastDone.isSome ∨ n ≠ 0 → lastDone'.isSome) := by
  induction n generalizing k sent lastDone with
  | zero => exact ⟨h, lastDone, rfl, fun hsome => hsome.resolve_right fun hne => hne rfl⟩
  | succ n ih =>
    obtain ⟨done, hdone, hnext⟩ := h.applyBlock hh hm hn (by omega)
    rw [LinkedChain.fetched_succ, Hull.applyBlocks]
    generalize Hull.applyBlock c env sent _ = applied at hdone hnext ⊢
    obtain ⟨sent', result⟩ := applied
    obtain rfl : result = .ok done := hdone
    obtain ⟨hscanned, lastDone', hlast, hsome⟩ := ih hnext (by omega) (some done)
    rw [show k + (n + 1) = k + 1 + n by omega]
    exact ⟨hscanned, lastDone', hlast, fun _ => hsome (Or.inl rfl)⟩

/-! ## The check of a batch -/

omit hh hm in
/-- Blocks that are linked to each other pass the check of a batch. -/
theorem LinkedChain.validate_loop (chain : LinkedChain c) (genesisBoot : Bool) (i m n : Nat) (hi : i ≠ 0)
    (hle : n = 0 ∨ m + 1 + n ≤ chain.top.toNat) :
    validateScanBlockChain.loop genesisBoot i (chain.blockAt (UInt64.ofNat m)).pageDigest
      (chain.fetched (m + 1) n) = .ok () := by
  induction n generalizing i m with
  | zero => rfl
  | succ n ih =>
    have heq : tip5AtomSemanticEq (chain.blockAt (UInt64.ofNat (m + 1))).parent
        (chain.blockAt (UInt64.ofNat m)).pageDigest = true := by
      rw [chain.linked m (by omega)]
      simp [tip5AtomSemanticEq]
    rw [LinkedChain.fetched_succ, validateScanBlockChain.loop, heq]
    simp only [Bool.not_true, Bool.and_false, Bool.false_eq_true, if_false]
    exact ih (i + 1) (m + 1) (Nat.succ_ne_zero i) (by omega)

/-- The next blocks of the chain pass the check against the cursor. -/
theorem ScannedTo.validate (h : ScannedTo chain env.toEnv k sent) {st : ScanState}
    (hst : Mirrors st (runState env.toEnv sent)) (n : Nat)
    (hle : n = 0 ∨ Kernel.nnsGenesisHeight + k + n ≤ chain.top.toNat) :
    validateScanBlockChain st.lastProvedHeight st.lastProvedDigest
      (chain.fetched (Kernel.nnsGenesisHeight + k) n) = .ok () := by
  cases n with
  | zero => rfl
  | succ n =>
    unfold validateScanBlockChain
    rw [scanCursorIsGenesisBoot_eq (h.runInv hh hm) hst, LinkedChain.fetched_succ,
      validateScanBlockChain.loop]
    have hlink : (runState env.toEnv sent).boot = true ∨ tip5AtomSemanticEq (chain.blockAt
        (UInt64.ofNat (Kernel.nnsGenesisHeight + k))).parent st.lastProvedDigest = true := by
      cases k with
      | zero => exact Or.inl ((h.boot_iff hh hm).mpr rfl)
      | succ k =>
        have hdigest := hst.digest.trans (h.digest hh hm)
        have hwide := (chain.wide (UInt64.ofNat (Kernel.nnsGenesisHeight + k))).2
        rw [← Nat.add_assoc, chain.linked _ (by omega)]
        refine Or.inr ((tip5AtomSemanticEq_iff hwide.le ?_).mpr hdigest.symm)
        rw [hdigest]
        exact leValue_lt hwide.le
    have hcheck : ((!((runState env.toEnv sent).boot && decide (0 = 0))) && !tip5AtomSemanticEq
        (chain.blockAt (UInt64.ofNat (Kernel.nnsGenesisHeight + k))).parent
          st.lastProvedDigest) = false := by
      rcases hlink with hlink | hlink
      · simp [hlink]
      · rw [hlink, Bool.not_true, Bool.and_false]
    rw [hcheck]
    exact chain.validate_loop _ 1 _ n (by decide) (by omega)

/-- A batch of the next blocks is applied as a whole. -/
theorem ScannedTo.applyPrefetched (hn : c.NounLaws) (h : ScannedTo chain env.toEnv k sent) (n : Nat)
    (hle : n = 0 ∨ Kernel.nnsGenesisHeight + k + n ≤ chain.top.toNat) :
    ScannedTo chain env.toEnv (k + n) (applyPrefetchedScanBlocks c env sent
      (chain.fetched (Kernel.nnsGenesisHeight + k) n)).1 ∧
    ∃ result, (applyPrefetchedScanBlocks c env sent
      (chain.fetched (Kernel.nnsGenesisHeight + k) n)).2 = .ok result ∧ (result = none → n = 0) := by
  obtain ⟨st, hst, hmirrors⟩ := h.followerScanState hh hm hn
  unfold applyPrefetchedScanBlocks
  by_cases hempty : (chain.fetched (Kernel.nnsGenesisHeight + k) n).isEmpty
  · have hzero : n = 0 := by simpa [LinkedChain.fetched] using hempty
    rw [if_pos hempty, hzero]
    exact ⟨h, none, rfl, fun _ => rfl⟩
  · have hne : n ≠ 0 := by
      rintro rfl
      exact hempty rfl
    rw [if_neg hempty, hst]
    dsimp only
    rw [h.validate hh hm hmirrors n hle]
    obtain ⟨hscanned, lastDone, hlast, hsome⟩ := h.applyBlocks hh hm hn n hle none
    obtain ⟨done, rfl⟩ := Option.isSome_iff_exists.mp (hsome (Or.inr hne))
    refine ⟨hscanned, some ⟨done.height, done.digest, done.accumulatorRoot,
      (chain.fetched (Kernel.nnsGenesisHeight + k) n).length⟩, ?_, fun hnone => by cases hnone⟩
    dsimp only
    rw [hlast]
    rfl

/-! ## Passes -/

omit hh hm in
theorem ScannedTo.genesisProof (hn : c.NounLaws) (h : ScannedTo chain env.toEnv k sent)
    (st : ScanState) : ScannedTo chain env.toEnv k (Hull.genesisProof c env sent st).1 :=
  ⟨by rw [runBlocks_genesisProof hn, h.log], h.le⟩

/-- The poke of the genesis proof does not stop a pass. -/
theorem ScannedTo.genesisProof_ok (hn : c.NounLaws) (hprover : ProverEnds env.toEnv)
    (hfuel : traceBudget ≤ env.fuel) (h : ScannedTo chain env.toEnv k sent) {st : ScanState}
    (hst : Mirrors st (runState env.toEnv sent)) :
    (Hull.genesisProof c env sent st).2 = .ok () := by
  unfold Hull.genesisProof
  rw [scanCursorIsGenesisBoot_eq (h.runInv hh hm) hst]
  by_cases hboot : (runState env.toEnv sent).boot = true
  · rw [if_pos hboot]
    have hlog : chain.log k = [] := ((h.runInv hh hm).boot_iff).mp hboot
    obtain ⟨r, hr⟩ := (h.runInv hh hm).proveRecursiveGenesis_ok hh hm hlog hprover hfuel
    have hpoke := (poke_of_softCause (runState env.toEnv sent)
      (softCause_proveGenesis env.toEnv)).trans hr
    have hsend : sendPoke env sent (buildProveRecursiveGenesisPoke c)
        = some (r.1.map Effect.noun) := by
      rw [buildProveRecursiveGenesisPoke_eq hn, sendPoke, hpoke]
      rfl
    dsimp only
    rw [hsend]
  · rw [if_neg hboot]

omit hh hm in
/-- The heights of a batch ascend, and are not above the tip. -/
theorem plannedHeights_spec (next n : Nat) (tip : UInt64) (h : n = 0 ∨ next + n ≤ tip.toNat + 1) :
    ((List.range n).map fun i => UInt64.ofNat (next + i)).Pairwise (· < ·) ∧
      ∀ height ∈ (List.range n).map fun i => UInt64.ofNat (next + i), height ≤ tip := by
  have htoNat : ∀ i ∈ List.range n, (UInt64.ofNat (next + i)).toNat = next + i := by
    intro i hi
    rw [List.mem_range] at hi
    exact UInt64.toNat_ofNat_of_lt' (Nat.lt_of_le_of_lt (by omega) tip.toNat_lt)
  constructor
  · refine List.pairwise_map.mpr (List.pairwise_lt_range.imp_of_mem fun {i j} hi hj hij => ?_)
    rw [UInt64.lt_iff_toNat_lt, htoNat i hi, htoNat j hj]
    omega
  · intro height hheight
    obtain ⟨i, hi, rfl⟩ := List.mem_map.mp hheight
    rw [UInt64.le_iff_toNat_le, htoNat i hi]
    rw [List.mem_range] at hi
    omega

/-- A pass that reads the chain takes the kernel on by blocks of it. One that reaches the node does
not fail, and takes it on by a whole batch or to the last final block. -/
theorem ScannedTo.scanOnce (hn : c.NounLaws) (h : ScannedTo chain env.toEnv k sent) {tick : Tick}
    (hhonest : tick.Honest chain) :
    ∃ k', k ≤ k' ∧ ScannedTo chain env.toEnv k' (Hull.scanOnce c env sent tick).1 ∧
      (ProverEnds env.toEnv → traceBudget ≤ env.fuel → ∀ tip batch, tick.Reaches tip batch →
        min (k + batch) (finalBlocks tip) ≤ k' ∧
        ∃ result, (Hull.scanOnce c env sent tick).2 = .ok result ∧ (result = none → k' = k)) := by
  obtain ⟨st, hst, hmirrors⟩ := h.followerScanState hh hm hn
  have hgenesis : ScannedTo chain env.toEnv k (Hull.genesisProof c env sent st).1 :=
    h.genesisProof hn st
  have hproof : ProverEnds env.toEnv → traceBudget ≤ env.fuel →
      (Hull.genesisProof c env sent st).2 = .ok () := fun hprover hfuel =>
    h.genesisProof_ok hh hm hn hprover hfuel hmirrors
  unfold Hull.scanOnce
  rw [hst]
  dsimp only
  generalize Hull.genesisProof c env sent st = booted at hgenesis hproof ⊢
  obtain ⟨sent', result⟩ := booted
  cases result with
  | error e =>
    refine ⟨k, le_rfl, hgenesis, fun hprover hfuel => ?_⟩
    cases hproof hprover hfuel
  | ok _ =>
    dsimp only
    cases htip : tick.currentChainTip with
    | error e =>
      refine ⟨k, le_rfl, hgenesis, fun _ _ tip batch hreaches => ?_⟩
      obtain ⟨t, ht, -⟩ := hreaches.tip
      rw [htip] at ht
      cases ht
    | ok t =>
      dsimp only
      have hwant := h.wantHeight hh hm
      rw [planHeights_eq (h.runInv hh hm) hmirrors t tick.batchMax hhonest.batch, hwant]
      have htop : t.toNat ≤ chain.top.toNat := UInt64.le_iff_toNat_le.mp (hhonest.tip t htip)
      have hreached : ∀ {tip batch}, tick.Reaches tip batch →
          tip ≤ t.toNat ∧ batch ≤ tick.batchMax.toNat := by
        intro tip batch hreaches
        obtain ⟨t', ht', hle⟩ := hreaches.tip
        obtain rfl := Except.ok.inj (htip.symm.trans ht')
        exact ⟨hle, hreaches.batch⟩
      by_cases hfinal : Kernel.nnsGenesisHeight + k + 10 ≤ t.toNat
      · rw [if_pos hfinal]
        dsimp only
        obtain ⟨n, hcount⟩ : ∃ n, n = min tick.batchMax.toNat
            (t.toNat - 10 - (Kernel.nnsGenesisHeight + k) + 1) := ⟨_, rfl⟩
        rw [← hcount]
        obtain ⟨hascending, hbelow⟩ := plannedHeights_spec (Kernel.nnsGenesisHeight + k) n t (by omega)
        cases hfetch : tick.prefetch ((List.range n).map fun i =>
            UInt64.ofNat (Kernel.nnsGenesisHeight + k + i)) with
        | error e =>
          refine ⟨k, le_rfl, hgenesis, fun _ _ tip batch hreaches => ?_⟩
          obtain ⟨blocks, hblocks⟩ := hreaches.fetches t htip _ hascending hbelow
          rw [hfetch] at hblocks
          cases hblocks
        | ok prefetched =>
          have hserved := hhonest.serves _ hascending _ hfetch
          rw [List.map_map] at hserved
          obtain rfl : prefetched = chain.fetched (Kernel.nnsGenesisHeight + k) n := hserved
          obtain ⟨hscanned, result, hresult, hnone⟩ :=
            hgenesis.applyPrefetched hh hm hn n (by omega)
          refine ⟨k + n, Nat.le_add_right k n, hscanned, fun _ _ tip batch hreaches => ?_⟩
          obtain ⟨htip', hbatch⟩ := hreached hreaches
          refine ⟨?_, result, hresult, fun heq => by rw [hnone heq, Nat.add_zero]⟩
          unfold finalBlocks
          omega
      · rw [if_neg hfinal]
        refine ⟨k, le_rfl, hgenesis, fun _ _ tip batch hreaches => ⟨?_, none, rfl, fun _ => rfl⟩⟩
        obtain ⟨htip', -⟩ := hreached hreaches
        unfold finalBlocks
        omega

/-! ## Runs -/

theorem ScannedTo.passes (hn : c.NounLaws) (h : ScannedTo chain env.toEnv k sent)
    {ticks : List Tick} (hhonest : ∀ t ∈ ticks, t.Honest chain) :
    ∃ k', k ≤ k' ∧ ScannedTo chain env.toEnv k'
        (ticks.foldl (fun sent tick => (Hull.scanOnce c env sent tick).1) sent) ∧
      (ProverEnds env.toEnv → traceBudget ≤ env.fuel → ∀ tip batch,
        (∀ t ∈ ticks, t.Reaches tip batch) →
        min (k + batch * ticks.length) (finalBlocks tip) ≤ k') := by
  induction ticks generalizing k sent with
  | nil => exact ⟨k, le_rfl, h, fun _ _ tip batch _ => by simp⟩
  | cons tick ticks ih =>
    obtain ⟨htick, hhonest⟩ := List.forall_mem_cons.mp hhonest
    obtain ⟨k₁, hle₁, hscanned₁, hpass⟩ := h.scanOnce hh hm hn htick
    obtain ⟨k₂, hle₂, hscanned₂, hrest⟩ := ih hscanned₁ hhonest
    refine ⟨k₂, hle₁.trans hle₂, hscanned₂, fun hprover hfuel tip batch hreaches => ?_⟩
    obtain ⟨hreach, hreaches⟩ := List.forall_mem_cons.mp hreaches
    have hfirst := (hpass hprover hfuel tip batch hreach).1
    have hlast := hrest hprover hfuel tip batch hreaches
    rw [List.length_cons, Nat.mul_succ]
    omega

end

theorem ScannedTo.start (chain : LinkedChain c) (env : Env Acc Vesl) :
    ScannedTo chain env 0 [] := ⟨rfl, Or.inl rfl⟩

/-- Whatever passes failed before, `m` passes that reach the node take the follower on by `m` batches
or to the last final block; the log is the chain from the genesis height to the cursor, each block
once and in order. -/
theorem follower_catches_up (hn : c.NounLaws) (hh : env.HashLaws) (hm : env.MapLaws)
    (hprover : ProverEnds env.toEnv) (hfuel : traceBudget ≤ env.fuel) (chain : LinkedChain c)
    (before passes : List Tick) (hbefore : ∀ t ∈ before, t.Honest chain)
    (hpasses : ∀ t ∈ passes, t.Honest chain) (tip batch : Nat)
    (hreaches : ∀ t ∈ passes, t.Reaches tip batch) :
    ∃ k k', runBlocks env.toEnv (followerPokes c env before) = chain.log k ∧
      runBlocks env.toEnv (followerPokes c env (before ++ passes)) = chain.log k' ∧
      min (k + batch * passes.length) (finalBlocks tip) ≤ k' ∧
      (0 < k' → (runState env.toEnv (followerPokes c env (before ++ passes))).lastProvedHeight + 1
        = Kernel.nnsGenesisHeight + k') := by
  obtain ⟨k, -, hscanned, -⟩ : ∃ k, _ ∧ ScannedTo chain env.toEnv k (followerPokes c env before) ∧ _ :=
    (ScannedTo.start chain env.toEnv).passes hh hm hn hbefore
  obtain ⟨k', -, hscanned', hprogress⟩ := hscanned.passes hh hm hn hpasses
  have hpokes : followerPokes c env (before ++ passes) = passes.foldl
      (fun sent tick => (Hull.scanOnce c env sent tick).1) (followerPokes c env before) := by
    unfold followerPokes
    rw [List.foldl_append]
  rw [hpokes]
  refine ⟨k, k', hscanned.log, hscanned'.log, hprogress hprover hfuel tip batch hreaches, ?_⟩
  intro hpos
  rw [(hscanned'.runInv hh hm).height, cursorHeight, LinkedChain.length_log, if_neg]
  · omega
  · intro hnil
    rw [← chain.length_log k', hnil] at hpos
    exact absurd hpos (by simp)

/-- The chain without claims, up to a tip. -/
def sampleChain : LinkedChain sampleCrates where
  toServedChain := sampleServed
  kernelBlockAt h := toScanBlock (leBytes 40 h.toNat) h (leBytes 40 (h.toNat + 1)) [] []
  prepared _ := rfl
  wide _ := ⟨length_leBytes _ _, length_leBytes _ _⟩
  top := 63012
  linked n h := by
    have hn : (63012 : UInt64).toNat = 63012 := rfl
    show leBytes 40 _ = leBytes 40 _
    rw [UInt64.toNat_ofNat_of_lt' (show n + 1 < 2 ^ 64 by omega),
      UInt64.toNat_ofNat_of_lt' (show n < 2 ^ 64 by omega)]
  belt := by decide
  claims := by
    have hnone : validClaimsOf (chainLog (fun h => toScanBlock (leBytes 40 h.toNat) h
        (leBytes 40 (h.toNat + 1)) [] []) (63012 : UInt64).toNat) = [] := by
      refine List.flatMap_eq_nil_iff.mpr fun b hb => ?_
      obtain ⟨i, -, rfl⟩ := List.mem_map.mp hb
      rfl
    rw [hnone]
    decide

theorem honest_servedTick {tip : UInt64} (h : tip ≤ 63012) :
    (servedTick sampleServed tip).Honest sampleChain where
  tip t ht := by
    obtain rfl := Except.ok.inj ht
    exact h
  batch := show (1 : UInt64) ≤ 2 by decide
  serves := serves_servedTick _ _

/-- Two passes after one that found the tip too low: all three final blocks are accepted. -/
theorem follower_catches_up_sample :
    ∃ k', 3 ≤ k' ∧ runBlocks sampleEnv (followerPokes sampleCrates samplePeekEnv
      [servedTick sampleServed 5, servedTick sampleServed 63012, servedTick sampleServed 63012])
        = sampleChain.log k' := by
  have hreaches : (servedTick sampleServed 63012).Reaches 63012 2 :=
    ⟨⟨_, rfl, le_rfl⟩, le_rfl, fun _ _ _ _ _ => ⟨_, rfl⟩⟩
  have hpasses : ∀ t ∈ [servedTick sampleServed 63012, servedTick sampleServed 63012],
      t = servedTick sampleServed 63012 := by simp
  obtain ⟨k, k', -, hlog, hle, -⟩ := @follower_catches_up _ _ _ _ _ _ sampleCrates samplePeekEnv
    sampleCrates_nounLaws sampleEnv_hashLaws sampleEnv_mapLaws
    (fun _ _ _ _ h => by cases h) (by decide) sampleChain [servedTick sampleServed 5]
    [servedTick sampleServed 63012, servedTick sampleServed 63012]
    (List.forall_mem_singleton.mpr (honest_servedTick (by decide)))
    (fun t ht => hpasses t ht ▸ honest_servedTick (by decide)) 63012 2
    (fun t ht => hpasses t ht ▸ hreaches)
  refine ⟨k', ?_, hlog⟩
  have hfinal : finalBlocks 63012 = 3 := rfl
  rw [hfinal] at hle
  simp only [List.length_cons, List.length_nil] at hle
  omega

end NnsVerified.Hull
