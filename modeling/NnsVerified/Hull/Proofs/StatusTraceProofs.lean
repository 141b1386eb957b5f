import NnsVerified.Hull.Proofs.ConvergenceProofs
import NnsVerified.Hull.Status

/-!
# The records of the follower

The records that the follower makes for `GET /status` do not change what it does to the kernel. What a
pass adds to the trace is one of three things: nothing was scanned, or the pass failed, or a batch is
in the log and is recorded.
-/

namespace NnsVerified.Hull

open NnsVerified.Hoon NnsVerified.Library NnsVerified.Kernel

variable {H Z L Acc Vesl : Type} {c : Crates H Z L} {env : PeekEnv Acc Vesl}
  {trace : List FollowerEvent}

/-! ## Traces -/

@[simp] theorem pokesOf_append (trace rest : List FollowerEvent) :
    pokesOf (trace ++ rest) = pokesOf trace ++ pokesOf rest := List.filterMap_append

@[simp] theorem pokesOf_nil : pokesOf [] = [] := rfl

@[simp] theorem pokesOf_poked (input : Noun) (trace : List FollowerEvent) :
    pokesOf (.poked input :: trace) = input :: pokesOf trace := rfl

@[simp] theorem pokesOf_advanced (tipHeight : UInt64) (count : Nat) (trace : List FollowerEvent) :
    pokesOf (.advanced tipHeight count :: trace) = pokesOf trace := rfl

@[simp] theorem pokesOf_sawTip (tip : UInt64) (trace : List FollowerEvent) :
    pokesOf (.sawTip tip :: trace) = pokesOf trace := rfl

@[simp] theorem pokesOf_failed (phase : FollowerPhase) (err : String) (trace : List FollowerEvent) :
    pokesOf (.failed phase err :: trace) = pokesOf trace := rfl

@[simp] theorem pokesOf_map_poked (inputs : List Noun) :
    pokesOf (inputs.map .poked) = inputs := by
  unfold pokesOf
  rw [List.filterMap_map]
  exact List.filterMap_some

theorem observed_concat (clock : Nat → UInt64) (trace : List FollowerEvent) (e : FollowerEvent) :
    observed clock (trace ++ [e]) = e.record (observed clock trace) (clock trace.length) := by
  unfold observed
  rw [List.zipIdx_append, List.foldl_append, Nat.zero_add]
  rfl

/-! ## Without the records -/

/-- A traced step without its records. -/
def erase {α : Type} (r : List FollowerEvent × α) : List Noun × α := (pokesOf r.1, r.2)

variable (c env) in
theorem erase_tracedScanState (trace : List FollowerEvent) :
    erase (tracedScanState c env trace)
      = (pokesOf trace, followerScanState c env (pokesOf trace)) := by
  unfold tracedScanState followerScanState erase
  cases peekNoun env (runState env.toEnv (pokesOf trace)) (buildScanStatePeek c) with
  | error e => simp [Except.mapError, bind, Except.bind]
  | ok result => rfl

variable (c env) in
theorem erase_tracedGenesisProof (trace : List FollowerEvent) (st : ScanState) :
    erase (tracedGenesisProof c env trace st) = genesisProof c env (pokesOf trace) st := by
  unfold tracedGenesisProof genesisProof erase
  split
  · exact Prod.ext (pokesOf_append _ _) rfl
  · rfl

variable [DecidableEq H] {hullFree : Bool}

variable (c env) in
theorem erase_tracedBlock (hullFree : Bool) (trace : List FollowerEvent) (block : ScanBlockFetch) :
    erase (tracedBlock c env hullFree trace block) = applyBlock c env (pokesOf trace) block := by
  unfold tracedBlock applyBlock tryY3RecursiveTransitionAfterBlock
  cases canonicalZSetTxOrder c block.pageTxIds with
  | error e => rfl
  | ok ids =>
    cases extractClaims c block.txDetails with
    | error e => rfl
    | ok claims =>
      dsimp only
      cases sendPoke env (pokesOf trace)
        (buildScanBlockPoke c block.parent block.height block.pageDigest ids claims) with
      | none =>
        cases hullFree <;> simp [erase]
      | some effects =>
        dsimp only
        cases scanBlockResult c effects with
        | error e => simp [erase]
        | ok done => simp [erase]

variable (c env) in
theorem erase_tracedBlocks (hullFree : Bool) (trace : List FollowerEvent)
    (lastDone : Option ScanBlockDone) (blocks : List ScanBlockFetch) :
    erase (tracedBlocks c env hullFree trace lastDone blocks)
      = applyBlocks c env (pokesOf trace) lastDone blocks := by
  induction blocks generalizing trace lastDone with
  | nil => rfl
  | cons block blocks ih =>
    have hblock := erase_tracedBlock c env hullFree trace block
    unfold tracedBlocks applyBlocks
    rw [← hblock]
    generalize tracedBlock c env hullFree trace block = r
    obtain ⟨trace', result⟩ := r
    cases result with
    | error e => rfl
    | ok done => exact ih trace' (some done)

variable (c env) in
theorem erase_tracedBatch (hullFree : Bool) (trace : List FollowerEvent)
    (prefetched : List ScanBlockFetch) :
    erase (tracedBatch c env hullFree trace prefetched)
      = applyPrefetchedScanBlocks c env (pokesOf trace) prefetched := by
  have hstate := erase_tracedScanState c env trace
  unfold tracedBatch applyPrefetchedScanBlocks
  by_cases hempty : prefetched.isEmpty
  · rw [if_pos hempty, if_pos hempty]
    rfl
  rw [if_neg hempty, if_neg hempty]
  generalize tracedScanState c env trace = scanned at hstate ⊢
  obtain ⟨trace', result⟩ := scanned
  obtain ⟨hpokes, hresult⟩ := Prod.mk.inj hstate
  obtain rfl : result = followerScanState c env (pokesOf trace) := hresult
  cases followerScanState c env (pokesOf trace) with
  | error e => exact Prod.ext hpokes rfl
  | ok st =>
    dsimp only
    cases validateScanBlockChain st.lastProvedHeight st.lastProvedDigest prefetched with
    | error e => exact Prod.ext hpokes rfl
    | ok u =>
      have hblocks := erase_tracedBlocks c env hullFree trace' none
        prefetched
      rw [show pokesOf trace' = pokesOf trace from hpokes] at hblocks
      dsimp only
      rw [← hblocks]
      generalize tracedBlocks c env hullFree trace' none prefetched = applied
      obtain ⟨trace'', result⟩ := applied
      cases result with
      | error e => rfl
      | ok lastDone =>
        cases lastDone with
        | none => rfl
        | some done => simp [erase, Except.bind]

variable (c env) in
theorem erase_tracedScan (trace : List FollowerEvent) (turn : FollowerTurn) :
    erase (tracedScan c env trace turn) = scanOnce c env (pokesOf trace) turn.toTick := by
  have hstate := erase_tracedScanState c env trace
  unfold tracedScan scanOnce
  generalize tracedScanState c env trace = scanned at hstate ⊢
  obtain ⟨trace', result⟩ := scanned
  obtain ⟨hpokes, hresult⟩ := Prod.mk.inj hstate
  obtain rfl : result = followerScanState c env (pokesOf trace) := hresult
  cases followerScanState c env (pokesOf trace) with
  | error e => exact Prod.ext hpokes rfl
  | ok st =>
    have hgenesis := erase_tracedGenesisProof c env trace' st
    rw [show pokesOf trace' = pokesOf trace from hpokes] at hgenesis
    dsimp only
    rw [← hgenesis]
    generalize tracedGenesisProof c env trace' st = booted
    obtain ⟨trace'', result⟩ := booted
    cases result with
    | error e => rfl
    | ok u =>
      dsimp only [erase]
      cases turn.currentChainTip with
      | error e => simp
      | ok tip =>
        dsimp only
        cases planHeights st tip turn.batchMax with
        | none => simp
        | some heights =>
          dsimp only
          cases turn.prefetch heights with
          | error e => simp
          | ok prefetched =>
            have hbatch := erase_tracedBatch c env turn.hullFree (trace'' ++ [.sawTip tip])
              prefetched
            rw [pokesOf_append, pokesOf_sawTip, pokesOf_nil, List.append_nil] at hbatch
            exact hbatch

theorem pokesOf_spawnTurn (trace : List FollowerEvent) (turn : FollowerTurn) :
    pokesOf (spawnTurn c env trace turn) = (scanOnce c env (pokesOf trace) turn.toTick).1 := by
  rw [← erase_tracedScan]
  unfold spawnTurn
  generalize tracedScan c env trace turn = r
  obtain ⟨trace', result⟩ := r
  cases result with
  | error e => simp [erase]
  | ok o => rfl

/-- The follower does to the kernel what it does without the records. -/
theorem pokesOf_spawnTrace (turns : List FollowerTurn) :
    pokesOf (spawnTrace c env turns) = followerPokes c env (turns.map FollowerTurn.toTick) := by
  induction turns using List.reverseRecOn with
  | nil => rfl
  | append_singleton turns turn ih =>
    unfold spawnTrace followerPokes at ih ⊢
    rw [List.foldl_append, List.map_append, List.foldl_append, ← ih]
    exact pokesOf_spawnTurn _ turn

/-! ## What a batch adds to the log -/

omit [DecidableEq H] in
/-- The height that a `%scan-block-done` effect carries is that of the block. -/
theorem scanBlockResult_height (hn : c.NounLaws) {sent effects : List Noun} {b : ScanBlock}
    {done : ScanBlockDone} (hheight : b.height < 2 ^ 64)
    (hsend : sendPoke env sent b.noun = some effects)
    (hresult : scanBlockResult c effects = .ok done) : done.height.toNat = b.height := by
  obtain ⟨⟨effects', t⟩, hpoke, rfl⟩ := Option.map_eq_some_iff.mp hsend
  have hscan : poke env.toEnv (runState env.toEnv sent) b.noun = .ok (effects', t) := by
    cases h : poke env.toEnv (runState env.toEnv sent) b.noun with
    | error e =>
      rw [h] at hpoke
      cases hpoke
    | ok r =>
      rw [h] at hpoke
      exact congrArg Except.ok (Option.some.inj hpoke)
  rw [poke_scanBlock] at hscan
  rcases scanBlock_cases hscan with ⟨e, acc, rfl, -, -⟩ |
    ⟨seeded, acc, root, -, -, -, -, -, rfl, -⟩
  · obtain ⟨msg, hmsg⟩ := scanBlockResult_rejected (c := c) hn e
    exact absurd (hmsg.symm.trans hresult) (by simp)
  · have hdone := scanBlockResult_accepted (c := c) hn b.pageDigest root hheight
    obtain rfl := Except.ok.inj (hdone.symm.trans hresult)
    exact UInt64.toNat_ofNat_of_lt' hheight

theorem applyBlock_done (hn : c.NounLaws) {sent : List Noun} {block : ScanBlockFetch}
    {done : ScanBlockDone} (h : (applyBlock c env sent block).2 = .ok done) :
    done.height = block.height := by
  unfold applyBlock at h
  cases horder : canonicalZSetTxOrder c block.pageTxIds with
  | error e => simp [horder] at h
  | ok ids =>
    cases hclaims : extractClaims c block.txDetails with
    | error e => simp [horder, hclaims] at h
    | ok claims =>
      obtain ⟨b, hof⟩ : ∃ b, blockOf c block = .ok b :=
        ⟨_, blockOf_eq_ok.mpr ⟨ids, claims, horder, hclaims, rfl⟩⟩
      have hinput : buildScanBlockPoke c block.parent block.height block.pageDigest ids claims
          = (toScanBlock block.parent block.height block.pageDigest ids claims).noun :=
        buildScanBlockPoke_eq hn _ _ _ _ _
      rw [horder, hclaims] at h
      dsimp only at h
      rw [hinput] at h
      cases hsend : sendPoke env sent
          (toScanBlock block.parent block.height block.pageDigest ids claims).noun with
      | none =>
        rw [hsend] at h
        cases h
      | some effects =>
        rw [hsend] at h
        dsimp only at h
        cases hresult : scanBlockResult c effects with
        | error e =>
          rw [hresult] at h
          cases h
        | ok done' =>
          rw [hresult] at h
          obtain rfl := Except.ok.inj h
          exact UInt64.toNat_inj.mp (scanBlockResult_height hn block.height.toNat_lt hsend hresult)

/-- Between two points of a run the log has gained a batch of a length, up to a block at a
height. -/
def Gains (env : Env Acc Vesl) (sent sent' : List Noun) (height count : Nat) : Prop :=
  ∃ batch, runBlocks env sent' = runBlocks env sent ++ batch ∧ batch.length = count ∧
    batch.getLast?.map ScanBlock.height = some height

/-- A batch that ends without an error has added all its blocks, the last one as its result says. -/
theorem applyBlocks_gains (hn : c.NounLaws) {sent sent' : List Noun}
    {lastDone lastDone' : Option ScanBlockDone} {blocks : List ScanBlockFetch}
    (h : applyBlocks c env sent lastDone blocks = (sent', .ok lastDone')) :
    ∃ batch, runBlocks env.toEnv sent' = runBlocks env.toEnv sent ++ batch ∧
      batch.length = blocks.length ∧ lastDone'.map (fun d => d.height.toNat)
        = (batch.getLast?.map ScanBlock.height).or (lastDone.map fun d => d.height.toNat) := by
  induction blocks generalizing sent lastDone with
  | nil =>
    obtain ⟨rfl, hlast⟩ := Prod.mk.inj h
    obtain rfl := Except.ok.inj hlast
    exact ⟨[], (List.append_nil _).symm, rfl, rfl⟩
  | cons block blocks ih =>
    have hlog := applyBlock_log env hn sent block
    have hheight : ∀ done, (applyBlock c env sent block).2 = .ok done →
        done.height = block.height := fun _ => applyBlock_done hn
    unfold applyBlocks at h
    generalize applyBlock c env sent block = applied at h hlog hheight
    obtain ⟨sent₁, result⟩ := applied
    cases result with
    | error e => cases (Prod.mk.inj h).2
    | ok done =>
      obtain ⟨b, done', hof, -, -, hblocks⟩ | ⟨-, -, e, he⟩ := hlog
      · obtain ⟨batch, hrest, hlength, hlast⟩ := ih h
        refine ⟨b :: batch, ?_, congrArg Nat.succ hlength, ?_⟩
        · rw [hrest, hblocks, List.append_assoc, List.singleton_append]
        · rw [hlast, List.getLast?_cons, Option.map_some, Option.map_some, hheight done rfl,
            ← blockOf_height hof]
          cases batch.getLast? <;> rfl
      · cases he

/-! ## Turns -/

/-- A record or a poke before the end of a pass: the tip is the one that the pass was told. -/
def FollowerEvent.Quiet (turn : FollowerTurn) : FollowerEvent → Prop
  | advanced _ _ => False
  | sawTip tip => turn.currentChainTip = .ok tip
  | _ => True

/-- A record of an error. -/
def FollowerEvent.Fails : FollowerEvent → Prop
  | failed _ _ => True
  | _ => False

/-- A trace goes on with events of a kind. -/
def Adds (P : FollowerEvent → Prop) (trace trace' : List FollowerEvent) : Prop :=
  ∃ new, trace' = trace ++ new ∧ ∀ e ∈ new, P e

section

variable {P Q : FollowerEvent → Prop} {trace trace' trace'' : List FollowerEvent}

theorem Adds.refl (P : FollowerEvent → Prop) (trace : List FollowerEvent) : Adds P trace trace :=
  ⟨[], (List.append_nil _).symm, by simp⟩

theorem Adds.append {new : List FollowerEvent} (h : Adds P trace trace') (hnew : ∀ e ∈ new, P e) :
    Adds P trace (trace' ++ new) := by
  obtain ⟨new', rfl, hnew'⟩ := h
  exact ⟨new' ++ new, List.append_assoc _ _ _, List.forall_mem_append.mpr ⟨hnew', hnew⟩⟩

theorem Adds.concat {e : FollowerEvent} (h : Adds P trace trace') (he : P e) :
    Adds P trace (trace' ++ [e]) := h.append (List.forall_mem_singleton.mpr he)

theorem Adds.trans (h : Adds P trace trace') (h' : Adds P trace' trace'') :
    Adds P trace trace'' := by
  obtain ⟨new, rfl, hnew⟩ := h'
  exact h.append hnew

theorem Adds.mono (h : Adds P trace trace') (hle : ∀ e, P e → Q e) : Adds Q trace trace' := by
  obtain ⟨new, heq, hnew⟩ := h
  exact ⟨new, heq, fun e he => hle e (hnew e he)⟩

end

variable {turn : FollowerTurn}

variable (c env) in
omit [DecidableEq H] in
theorem tracedScanState_adds (turn : FollowerTurn) (trace : List FollowerEvent) :
    Adds (FollowerEvent.Quiet turn) trace (tracedScanState c env trace).1 := by
  unfold tracedScanState
  split
  · exact (Adds.refl _ trace).concat trivial
  · exact Adds.refl _ trace

omit [DecidableEq H] in
theorem tracedScanState_ok {trace' : List FollowerEvent} {st : ScanState}
    (h : tracedScanState c env trace = (trace', .ok st)) : trace' = trace := by
  unfold tracedScanState at h
  split at h
  · cases (Prod.mk.inj h).2
  · exact (Prod.mk.inj h).1.symm

variable (c env turn) in
omit [DecidableEq H] in
theorem tracedGenesisProof_adds (trace : List FollowerEvent) (st : ScanState) :
    Adds (fun e => e.Quiet turn ∧ ¬e.Fails) trace (tracedGenesisProof c env trace st).1 := by
  unfold tracedGenesisProof
  split
  · exact (Adds.refl _ trace).concat ⟨trivial, id⟩
  · exact Adds.refl _ trace

variable (c env hullFree turn) in
theorem tracedBlock_adds (trace : List FollowerEvent) (block : ScanBlockFetch) :
    Adds (FollowerEvent.Quiet turn) trace (tracedBlock c env hullFree trace block).1 := by
  unfold tracedBlock
  cases canonicalZSetTxOrder c block.pageTxIds with
  | error e => exact Adds.refl _ trace
  | ok ids =>
    cases extractClaims c block.txDetails with
    | error e => exact Adds.refl _ trace
    | ok claims =>
      have hpoked := (Adds.refl (FollowerEvent.Quiet turn) trace).concat
        (e := .poked (buildScanBlockPoke c block.parent block.height block.pageDigest ids claims))
        trivial
      dsimp only
      cases sendPoke env (pokesOf trace)
        (buildScanBlockPoke c block.parent block.height block.pageDigest ids claims) with
      | none =>
        refine hpoked.append fun e he => ?_
        cases hullFree with
        | false => cases he
        | true =>
          obtain rfl := List.mem_singleton.mp he
          trivial
      | some effects =>
        dsimp only
        cases scanBlockResult c effects with
        | error e => exact hpoked.concat trivial
        | ok done =>
          refine hpoked.append fun e he => ?_
          obtain ⟨input, -, rfl⟩ := List.mem_map.mp he
          trivial

variable (c env hullFree turn) in
theorem tracedBlocks_adds (trace : List FollowerEvent) (lastDone : Option ScanBlockDone)
    (blocks : List ScanBlockFetch) :
    Adds (FollowerEvent.Quiet turn) trace (tracedBlocks c env hullFree trace lastDone blocks).1 := by
  induction blocks generalizing trace lastDone with
  | nil => exact Adds.refl _ trace
  | cons block blocks ih =>
    have hblock := tracedBlock_adds c env hullFree turn trace block
    unfold tracedBlocks
    generalize tracedBlock c env hullFree trace block = r at hblock ⊢
    obtain ⟨trace', result⟩ := r
    cases result with
    | error e => exact hblock
    | ok done => exact hblock.trans (ih trace' (some done))

/-- What a part of a pass leaves behind: it scanned nothing, or it failed, or it recorded the batch
that the log has gained. -/
inductive TurnCase (env : Env Acc Vesl) (turn : FollowerTurn) (trace : List FollowerEvent) :
    List FollowerEvent × Except String (Option ScanBlockOutcome) → Prop where
  | idle {trace' : List FollowerEvent}
      (adds : Adds (fun e => e.Quiet turn ∧ ¬e.Fails) trace trace')
      (log : runBlocks env (pokesOf trace') = runBlocks env (pokesOf trace)) :
      TurnCase env turn trace (trace', .ok none)
  | failed {trace' : List FollowerEvent} {e : String}
      (adds : Adds (FollowerEvent.Quiet turn) trace trace') :
      TurnCase env turn trace (trace', .error e)
  | advanced {trace' : List FollowerEvent} {o : ScanBlockOutcome}
      (adds : Adds (FollowerEvent.Quiet turn) trace trace')
      (gains : Gains env (pokesOf trace) (pokesOf trace') o.height.toNat o.blocksApplied) :
      TurnCase env turn trace (trace' ++ [.advanced o.height o.blocksApplied], .ok (some o))

variable (env hullFree turn) in
theorem tracedBatch_cases (hn : c.NounLaws) (trace : List FollowerEvent)
    (prefetched : List ScanBlockFetch) :
    TurnCase env.toEnv turn trace (tracedBatch c env hullFree trace prefetched) := by
  unfold tracedBatch
  by_cases hempty : prefetched.isEmpty
  · rw [if_pos hempty]
    exact .idle (Adds.refl _ trace) rfl
  rw [if_neg hempty]
  have hstate := tracedScanState_adds c env turn trace
  have hsame : ∀ {trace' st}, tracedScanState c env trace = (trace', .ok st) → trace' = trace :=
    tracedScanState_ok
  generalize tracedScanState c env trace = scanned at hstate hsame ⊢
  obtain ⟨trace', result⟩ := scanned
  cases result with
  | error e => exact .failed hstate
  | ok st =>
    obtain rfl := hsame rfl
    dsimp only
    cases validateScanBlockChain st.lastProvedHeight st.lastProvedDigest prefetched with
    | error e => exact .failed hstate
    | ok u =>
      have hblocks := tracedBlocks_adds c env hullFree turn trace' none prefetched
      have herase := erase_tracedBlocks c env hullFree trace' none
        prefetched
      dsimp only
      generalize tracedBlocks c env hullFree trace' none prefetched = applied at hblocks herase ⊢
      obtain ⟨trace'', result⟩ := applied
      cases result with
      | error e => exact .failed hblocks
      | ok lastDone =>
        obtain ⟨batch, hlog, hlength, hlast⟩ := applyBlocks_gains hn herase.symm
        cases lastDone with
        | none => exact .failed hblocks
        | some done =>
          refine .advanced (o := ⟨done.height, done.digest, done.accumulatorRoot, _⟩) hblocks
            ⟨batch, hlog, hlength, ?_⟩
          rw [Option.map_none, Option.or_none] at hlast
          exact hlast.symm

variable (env) in
/-- What one pass does. -/
theorem tracedScan_cases (hn : c.NounLaws) (trace : List FollowerEvent) (turn : FollowerTurn) :
    TurnCase env.toEnv turn trace (tracedScan c env trace turn) := by
  have hstate := tracedScanState_adds c env turn trace
  have hsame : ∀ {trace' st}, tracedScanState c env trace = (trace', .ok st) → trace' = trace :=
    tracedScanState_ok
  unfold tracedScan
  generalize tracedScanState c env trace = scanned at hstate hsame ⊢
  obtain ⟨trace', result⟩ := scanned
  cases result with
  | error e => exact .failed hstate
  | ok st =>
    obtain rfl := hsame rfl
    have hgenesis := tracedGenesisProof_adds c env turn trace' st
    have hlog : runBlocks env.toEnv (pokesOf (tracedGenesisProof c env trace' st).1)
        = runBlocks env.toEnv (pokesOf trace') := by
      have herase := erase_tracedGenesisProof c env trace' st
      rw [show pokesOf (tracedGenesisProof c env trace' st).1 = _ from congrArg Prod.fst herase]
      exact runBlocks_genesisProof hn st
    have hquiet : ∀ {trace₁ trace₂}, Adds (fun e => e.Quiet turn ∧ ¬e.Fails) trace₁ trace₂ →
        Adds (FollowerEvent.Quiet turn) trace₁ trace₂ := fun h => h.mono fun _ he => he.1
    dsimp only
    generalize tracedGenesisProof c env trace' st = booted at hgenesis hlog ⊢
    obtain ⟨trace'', result⟩ := booted
    cases result with
    | error e => exact .failed (hquiet hgenesis)
    | ok u =>
      dsimp only
      cases htip : turn.currentChainTip with
      | error e => exact .failed ((hquiet hgenesis).concat trivial)
      | ok tip =>
        have hsaw := hgenesis.concat (e := .sawTip tip) ⟨htip, id⟩
        have hlog' : runBlocks env.toEnv (pokesOf (trace'' ++ [.sawTip tip]))
            = runBlocks env.toEnv (pokesOf trace') := by
          simpa using hlog
        dsimp only
        cases planHeights st tip turn.batchMax with
        | none => exact .idle hsaw hlog'
        | some heights =>
          dsimp only
          cases turn.prefetch heights with
          | error e => exact .failed (hquiet hsaw)
          | ok prefetched =>
            have hbatch := tracedBatch_cases env turn.hullFree turn hn (trace'' ++ [.sawTip tip])
              prefetched
            dsimp only
            generalize tracedBatch c env turn.hullFree (trace'' ++ [.sawTip tip]) prefetched = r
              at hbatch ⊢
            cases hbatch with
            | idle adds log => exact .idle (hsaw.trans adds) (log.trans hlog')
            | failed adds => exact .failed ((hquiet hsaw).trans adds)
            | advanced adds gains =>
              refine .advanced ((hquiet hsaw).trans adds) ?_
              unfold Gains at gains ⊢
              rwa [hlog'] at gains

end NnsVerified.Hull
