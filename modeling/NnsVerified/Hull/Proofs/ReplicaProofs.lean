import NnsVerified.Hull.Proofs.FollowerProofs
import NnsVerified.Kernel.Proofs.LogProofs

/-!
# Replicas that follow one chain

Servers that follow one chain, each at its own pace and with failures of its own, accept the blocks
of the chain in order. So their registries never contradict each other, and two servers at one
height hold the same registry.
-/

namespace NnsVerified.Hull

open NnsVerified.Hoon NnsVerified.Library NnsVerified.Kernel

variable {H Z L Acc Vesl : Type} {c : Crates H Z L} {env : PeekEnv Acc Vesl} {sent : List Noun}

/-! ## Chains -/

/-- A chain as a node serves it: the fetched block at each height. -/
structure ServedChain where
  blockAt : UInt64 → ScanBlockFetch
  height_eq : ∀ h, (blockAt h).height = h

/-- What a pass prefetches is the chain, where it does not fail. A pass asks for ascending heights. -/
def Tick.Serves (chain : ServedChain) (tick : Tick) : Prop :=
  ∀ heights, heights.Pairwise (· < ·) → ∀ blocks, tick.prefetch heights = .ok blocks →
    blocks = heights.map chain.blockAt

theorem inclusiveRange_ascending (a b : UInt64) : (inclusiveRange a b).Pairwise (· < ·) := by
  unfold inclusiveRange
  refine List.pairwise_map.mpr (List.pairwise_lt_range.imp_of_mem fun {i j} hi hj hij => ?_)
  rw [List.mem_range] at hi hj
  rw [UInt64.lt_iff_toNat_lt, UInt64.toNat_ofNat_of_lt' (Nat.lt_of_le_of_lt (by omega) b.toNat_lt),
    UInt64.toNat_ofNat_of_lt' (Nat.lt_of_le_of_lt (by omega) b.toNat_lt)]
  omega

theorem planHeights_ascending {st : ScanState} {tip batchMax : UInt64} {heights : List UInt64}
    (h : planHeights st tip batchMax = some heights) : heights.Pairwise (· < ·) := by
  unfold planHeights at h
  split at h
  · cases h
  · dsimp only at h
    split at h
    · cases h
    · obtain rfl := Option.some.inj h
      exact inclusiveRange_ascending _ _

/-- The block that the kernel reads off the poke of a fetched block. -/
def blockOf [DecidableEq H] (c : Crates H Z L) (block : ScanBlockFetch) : Except String ScanBlock := do
  let ids ← canonicalZSetTxOrder c block.pageTxIds
  let claims ← extractClaims c block.txDetails
  return toScanBlock block.parent block.height block.pageDigest ids claims

/-- The block of a chain at a height, as the kernel gets it. -/
def ServedChain.kernelBlock [DecidableEq H] (chain : ServedChain) (c : Crates H Z L) (n : Nat) :
    Option ScanBlock :=
  (blockOf c (chain.blockAt (UInt64.ofNat n))).toOption

/-- The log of the kernel is drawn from the chain. -/
def FollowsChain [DecidableEq H] (chain : ServedChain) (c : Crates H Z L) (env : Env Acc Vesl)
    (sent : List Noun) : Prop :=
  DrawnFrom (chain.kernelBlock c) (runBlocks env sent)

theorem blockOf_eq_ok [DecidableEq H] {block : ScanBlockFetch} {b : ScanBlock} :
    blockOf c block = .ok b ↔ ∃ ids claims, canonicalZSetTxOrder c block.pageTxIds = .ok ids ∧
      extractClaims c block.txDetails = .ok claims ∧
      b = toScanBlock block.parent block.height block.pageDigest ids claims := by
  constructor
  · intro h
    obtain ⟨ids, hids, h⟩ := bind_eq_ok h
    obtain ⟨claims, hclaims, h⟩ := bind_eq_ok h
    exact ⟨ids, claims, hids, hclaims, (Except.ok.inj h).symm⟩
  · rintro ⟨ids, claims, hids, hclaims, rfl⟩
    rw [blockOf, hids, ok_bind, hclaims]
    rfl

theorem blockOf_height [DecidableEq H] {block : ScanBlockFetch} {b : ScanBlock}
    (h : blockOf c block = .ok b) : b.height = block.height.toNat := by
  obtain ⟨ids, claims, -, -, rfl⟩ := blockOf_eq_ok.mp h
  rfl

theorem ServedChain.kernelBlock_of_blockOf [DecidableEq H] {chain : ServedChain} {h : UInt64}
    {b : ScanBlock} (hb : blockOf c (chain.blockAt h) = .ok b) :
    chain.kernelBlock c b.height = some b := by
  have hheight : UInt64.ofNat b.height = h := by
    rw [blockOf_height hb, chain.height_eq, UInt64.ofNat_toNat]
  rw [ServedChain.kernelBlock, hheight, hb]
  rfl

/-! ## What a pass adds to the log -/

theorem runBlocks_snoc (env : Env Acc Vesl) (sent : List Noun) (input : Noun) :
    runBlocks env (sent ++ [input])
      = runBlocks env sent ++ (acceptedBlock env (runState env sent) input).toList := by
  unfold runBlocks
  rw [history_append, history_cons, history_nil, List.append_nil]
  rfl

theorem acceptedBlock_eq_none_of_cause {env : Env Acc Vesl} {s : State Acc Vesl} {input : Noun}
    {cause : Cause} (h : softCause env input = some cause) (hscan : ∀ b, cause ≠ .scanBlock b) :
    acceptedBlock env s input = none := by
  unfold acceptedBlock
  rw [h]
  cases cause with
  | scanBlock b => exact absurd rfl (hscan b)
  | _ => rfl

section

variable (hn : c.NounLaws)

include hn

/-- A transition adds no block. -/
theorem runBlocks_transition (block : ScanBlockFetch) (claims : List ClaimCandidate) :
    runBlocks env.toEnv (tryY3RecursiveTransitionAfterBlock c env sent block claims)
      = runBlocks env.toEnv sent := by
  unfold tryY3RecursiveTransitionAfterBlock
  cases hpoke : transitionPoke c env sent block claims with
  | none => rw [Option.toList_none, List.append_nil]
  | some input =>
    rw [transitionPoke_eq hn] at hpoke
    obtain ⟨seeded, -, hpoke⟩ := Option.bind_eq_some_iff.mp hpoke
    obtain ⟨rp, -, rfl⟩ := Option.map_eq_some_iff.mp hpoke
    rw [Option.toList_some, runBlocks_snoc,
      acceptedBlock_eq_none_of_cause (softCause_proveTransition _ _) (by simp), Option.toList_none,
      List.append_nil]

/-- The poke of the genesis proof adds no block. -/
theorem runBlocks_genesisProof (st : ScanState) :
    runBlocks env.toEnv (genesisProof c env sent st).1 = runBlocks env.toEnv sent := by
  unfold genesisProof
  split
  · rw [buildProveRecursiveGenesisPoke_eq hn, runBlocks_snoc,
      acceptedBlock_eq_none_of_cause (softCause_proveGenesis _) (by simp),
      Option.toList_none, List.append_nil]
  · rfl

variable (env) in
/-- The loop accepts the block of the batch and goes on, or it stops and the log stays. -/
theorem applyBlock_log [DecidableEq H] (sent : List Noun) (block : ScanBlockFetch) :
    (∃ b done, blockOf c block = .ok b ∧
      acceptedBlock env.toEnv (runState env.toEnv sent) b.noun = some b ∧
      (applyBlock c env sent block).2 = .ok done ∧
      runBlocks env.toEnv (applyBlock c env sent block).1 = runBlocks env.toEnv sent ++ [b]) ∨
    ((∀ b, blockOf c block = .ok b →
        acceptedBlock env.toEnv (runState env.toEnv sent) b.noun = none) ∧
      runBlocks env.toEnv (applyBlock c env sent block).1 = runBlocks env.toEnv sent ∧
      ∃ e, (applyBlock c env sent block).2 = .error e) := by
  unfold applyBlock
  cases horder : canonicalZSetTxOrder c block.pageTxIds with
  | error e =>
    refine Or.inr ⟨fun b hb => ?_, rfl, _, rfl⟩
    obtain ⟨ids, -, hids, -⟩ := blockOf_eq_ok.mp hb
    rw [horder] at hids
    cases hids
  | ok ids =>
    cases hclaims : extractClaims c block.txDetails with
    | error e =>
      refine Or.inr ⟨fun b hb => ?_, rfl, _, rfl⟩
      obtain ⟨-, claims, -, hclaims', -⟩ := blockOf_eq_ok.mp hb
      rw [hclaims] at hclaims'
      cases hclaims'
    | ok claims =>
      obtain ⟨b, hof⟩ : ∃ b, blockOf c block = .ok b :=
        ⟨_, blockOf_eq_ok.mpr ⟨ids, claims, horder, hclaims, rfl⟩⟩
      have hinput : buildScanBlockPoke c block.parent block.height block.pageDigest ids claims
          = b.noun := by
        obtain ⟨ids', claims', hids', hclaims', rfl⟩ := blockOf_eq_ok.mp hof
        obtain rfl := Except.ok.inj (horder.symm.trans hids')
        obtain rfl := Except.ok.inj (hclaims.symm.trans hclaims')
        exact buildScanBlockPoke_eq hn _ _ _ _ _
      have hiff : (∃ effects done, sendPoke env sent b.noun = some effects ∧
          scanBlockResult c effects = .ok done) ↔
          acceptedBlock env.toEnv (runState env.toEnv sent) b.noun = some b :=
        scanBlockResult_iff hn (blockOf_height hof ▸ block.height.toNat_lt)
      dsimp only
      rw [hinput]
      -- where the follower stops, the kernel accepted nothing
      have hstop : (¬∃ effects done, sendPoke env sent b.noun = some effects ∧
          scanBlockResult c effects = .ok done) →
          (∀ b', blockOf c block = .ok b' →
            acceptedBlock env.toEnv (runState env.toEnv sent) b'.noun = none) ∧
          runBlocks env.toEnv (sent ++ [b.noun]) = runBlocks env.toEnv sent := by
        intro hfail
        have hnone : acceptedBlock env.toEnv (runState env.toEnv sent) b.noun = none := by
          by_contra hsome
          obtain ⟨b', hacc⟩ := Option.ne_none_iff_exists'.mp hsome
          exact hfail (hiff.mpr ((acceptedBlock_noun hacc) ▸ hacc))
        refine ⟨fun b' hb' => ?_, by rw [runBlocks_snoc, hnone, Option.toList_none, List.append_nil]⟩
        rwa [← Except.ok.inj (hof.symm.trans hb')]
      cases hsend : sendPoke env sent b.noun with
      | none =>
        obtain ⟨hnone, hlog⟩ := hstop fun ⟨effects, _, heffects, _⟩ => by
          rw [hsend] at heffects
          cases heffects
        exact Or.inr ⟨hnone, hlog, _, rfl⟩
      | some effects =>
        dsimp only
        cases hresult : scanBlockResult c effects with
        | error e =>
          obtain ⟨hnone, hlog⟩ := hstop fun ⟨effects', done, heffects, hdone⟩ => by
            rw [hsend] at heffects
            obtain rfl := Option.some.inj heffects
            rw [hresult] at hdone
            cases hdone
          exact Or.inr ⟨hnone, hlog, _, rfl⟩
        | ok done =>
          have hacc := hiff.mp ⟨effects, done, hsend, hresult⟩
          refine Or.inl ⟨b, done, hof, hacc, rfl, ?_⟩
          dsimp only
          rw [runBlocks_transition hn, runBlocks_snoc, hacc, Option.toList_some]

variable (env) in
/-- A batch adds blocks that it fetched. -/
theorem applyBlocks_log [DecidableEq H] (sent : List Noun) (lastDone : Option ScanBlockDone)
    (blocks : List ScanBlockFetch) : ∃ new,
      runBlocks env.toEnv (applyBlocks c env sent lastDone blocks).1
        = runBlocks env.toEnv sent ++ new ∧
      ∀ b ∈ new, ∃ block ∈ blocks, blockOf c block = .ok b := by
  induction blocks generalizing sent lastDone with
  | nil => exact ⟨[], (List.append_nil _).symm, by simp⟩
  | cons block blocks ih =>
    have hblock := applyBlock_log env hn sent block
    unfold applyBlocks
    generalize applyBlock c env sent block = applied at hblock ⊢
    obtain ⟨sent', result⟩ := applied
    rcases hblock with ⟨b, done, hof, -, hok, hlog⟩ | ⟨-, hlog, e, herr⟩
    · obtain rfl : result = .ok done := hok
      obtain ⟨new, hnew, hfetched⟩ := ih sent' (some done)
      refine ⟨b :: new, ?_, ?_⟩
      · rw [hnew, show runBlocks env.toEnv sent' = runBlocks env.toEnv sent ++ [b] from hlog,
          List.append_assoc]
        rfl
      · intro b' hb'
        rcases List.mem_cons.mp hb' with rfl | hb'
        · exact ⟨block, List.mem_cons_self, hof⟩
        · obtain ⟨block', hmem, hof'⟩ := hfetched b' hb'
          exact ⟨block', List.mem_cons_of_mem _ hmem, hof'⟩
    · obtain rfl : result = .error e := herr
      exact ⟨[], by rw [List.append_nil]; exact hlog, by simp⟩

end

/-! ## Safety -/

variable [DecidableEq H] {chain : ServedChain}

section

variable (hn : c.NounLaws)

include hn

theorem FollowsChain.applyPrefetched (h : FollowsChain chain c env.toEnv sent)
    (heights : List UInt64) : FollowsChain chain c env.toEnv
      (applyPrefetchedScanBlocks c env sent (heights.map chain.blockAt)).1 := by
  unfold applyPrefetchedScanBlocks
  split
  · exact h
  · split
    · exact h
    · split
      · exact h
      · obtain ⟨new, hlog, hnew⟩ :=
          applyBlocks_log env hn sent none (heights.map chain.blockAt)
        intro b hb
        rw [hlog] at hb
        rcases List.mem_append.mp hb with hb | hb
        · exact h b hb
        · obtain ⟨block, hmem, hof⟩ := hnew b hb
          obtain ⟨height, -, rfl⟩ := List.mem_map.mp hmem
          exact ServedChain.kernelBlock_of_blockOf hof

theorem FollowsChain.scanOnce (h : FollowsChain chain c env.toEnv sent) {tick : Tick}
    (hserves : tick.Serves chain) :
    FollowsChain chain c env.toEnv (scanOnce c env sent tick).1 := by
  unfold Hull.scanOnce
  cases followerScanState c env sent with
  | error e => exact h
  | ok st =>
    have hgenesis : FollowsChain chain c env.toEnv (genesisProof c env sent st).1 := by
      unfold FollowsChain
      rw [runBlocks_genesisProof hn]
      exact h
    dsimp only
    generalize genesisProof c env sent st = booted at hgenesis ⊢
    obtain ⟨sent', result⟩ := booted
    cases result with
    | error e => exact hgenesis
    | ok _ =>
      dsimp only
      split
      · exact hgenesis
      · split
        · exact hgenesis
        · rename_i heights hplan
          cases hfetch : tick.prefetch heights with
          | error e => exact hgenesis
          | ok prefetched =>
            obtain rfl := hserves heights (planHeights_ascending hplan) prefetched hfetch
            exact hgenesis.applyPrefetched hn heights

/-- Every run on a chain leaves a log of blocks of the chain. -/
theorem followsChain_followerPokes {ticks : List Tick} (hserves : ∀ t ∈ ticks, t.Serves chain) :
    FollowsChain chain c env.toEnv (followerPokes c env ticks) := by
  unfold followerPokes
  have hstart : FollowsChain chain c env.toEnv [] := fun b hb => by cases hb
  generalize ([] : List Noun) = sent at hstart ⊢
  induction ticks generalizing sent with
  | nil => exact hstart
  | cons tick ticks ih =>
    obtain ⟨htick, hserves⟩ := List.forall_mem_cons.mp hserves
    exact ih hserves _ (hstart.scanOnce hn htick)

end

/-- Two servers that follow one chain never contradict each other. Once the one that is behind has
accepted a block, its log is a prefix of the log of the other, which answers every name that the first
one answers, with the same row; at one height they hold the same registry. -/
theorem replicas_agree (hn : c.NounLaws) (hh : env.HashLaws) (hm : env.MapLaws)
    (chain : ServedChain) (ticks ticks' : List Tick) (hserves : ∀ t ∈ ticks, t.Serves chain)
    (hserves' : ∀ t ∈ ticks', t.Serves chain) (s s' : State Acc Vesl)
    (hs : s = runState env.toEnv (followerPokes c env ticks))
    (hs' : s' = runState env.toEnv (followerPokes c env ticks'))
    (hle : s.lastProvedHeight ≤ s'.lastProvedHeight) (hstarted : 0 < s.lastProvedHeight) :
    runBlocks env.toEnv (followerPokes c env ticks)
        <+: runBlocks env.toEnv (followerPokes c env ticks') ∧
    (∀ name e, get env.toEnv s.accumulator name = .ok (some e) →
      get env.toEnv s'.accumulator name = .ok (some e)) ∧
    (s.lastProvedHeight = s'.lastProvedHeight → s.accumulator = s'.accumulator ∧
      s.lastProvedDigest = s'.lastProvedDigest) := by
  subst hs hs'
  have hinv := runInv hh hm (followerPokes c env ticks)
  have hinv' := runInv hh hm (followerPokes c env ticks')
  rw [hinv.height, hinv'.height] at hle
  have hne : runBlocks env.toEnv (followerPokes c env ticks) ≠ [] := by
    intro hnil
    rw [hinv.height, hnil] at hstarted
    exact absurd hstarted (by decide)
  have hpre := hinv.linked.prefix_of_length_le hinv'.linked
    (followsChain_followerPokes hn hserves) (followsChain_followerPokes hn hserves')
    (cursorHeight_le hle)
  have hne' : runBlocks env.toEnv (followerPokes c env ticks') ≠ [] := hpre.ne_nil hne
  refine ⟨hpre, fun name e hget => ?_, fun heq => ?_⟩
  · rw [get_eq hh hm (hinv.inserted.built hh hm)] at hget
    have hview := scanAll_view_prefix hh hm hpre (hinv.scanned hne).1 (hinv'.scanned hne').1
      (keyOf_based hh name) (Except.ok.inj hget)
    rw [get_eq hh hm (hinv'.inserted.built hh hm), hview]
  · rw [hinv.height, hinv'.height] at heq
    have hsame := hpre.eq_of_length (le_antisymm hpre.length_le (cursorHeight_le heq.ge))
    rw [hsame] at hinv
    obtain ⟨hacc, -, hdigest⟩ := hinv.determined hne' hinv'
    exact ⟨hacc, hdigest⟩

/-- A chain without claims: the digest of a block is the height after it, on 40 bytes. -/
def sampleServed : ServedChain where
  blockAt h := ⟨h, leBytes 40 (h.toNat + 1), leBytes 40 h.toNat, [], []⟩
  height_eq _ := rfl

/-- A pass that reads a chain up to a tip, by batches of two blocks. -/
def servedTick (chain : ServedChain) (tip : UInt64) : Tick :=
  ⟨.ok tip, 2, fun heights => .ok (heights.map chain.blockAt)⟩

theorem serves_servedTick (chain : ServedChain) (tip : UInt64) :
    (servedTick chain tip).Serves chain := fun _ _ _ h => (Except.ok.inj h).symm

/-- A server one block ahead of another one, which came to its height in one pass. -/
theorem replicas_agree_ahead :
    runBlocks sampleEnv (followerPokes sampleCrates samplePeekEnv [servedTick sampleServed 63010])
      <+: runBlocks sampleEnv
        (followerPokes sampleCrates samplePeekEnv [servedTick sampleServed 63011]) := by
  have hheights : (runState sampleEnv (followerPokes sampleCrates samplePeekEnv
        [servedTick sampleServed 63010])).lastProvedHeight = 63000 ∧
      (runState sampleEnv (followerPokes sampleCrates samplePeekEnv
        [servedTick sampleServed 63011])).lastProvedHeight = 63001 := by
    decide +kernel
  refine (@replicas_agree _ _ _ _ _ sampleCrates samplePeekEnv _ sampleCrates_nounLaws
    sampleEnv_hashLaws sampleEnv_mapLaws sampleServed _ _ ?_ ?_ _ _ rfl rfl ?_ ?_).1
  · exact List.forall_mem_singleton.mpr (serves_servedTick _ _)
  · exact List.forall_mem_singleton.mpr (serves_servedTick _ _)
  · exact hheights.1.trans_le (hheights.2.ge.trans' (by decide))
  · exact hheights.1.ge.trans_lt' (by decide)

end NnsVerified.Hull
