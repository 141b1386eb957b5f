import NnsVerified.Hull.Proofs.StatusRestProofs

/-!
# A follower that catches up

Passes that reach the node do not fail. Once they have had batches enough for the tip that they are
told, the status shows this tip and says that the follower is caught up.
-/

namespace NnsVerified.Hull

open NnsVerified.Hoon NnsVerified.Library NnsVerified.Kernel

variable {H Z L Acc Vesl : Type} {c : Crates H Z L} {env : PeekEnv Acc Vesl}
  {trace : List FollowerEvent} [DecidableEq H] {turn : FollowerTurn}

/-! ## The results -/

section

variable {chain : LinkedChain c} {k : Nat} {sent : List Noun} (hn : c.NounLaws)
  (hh : env.HashLaws) (hm : env.MapLaws) (hprover : ProverEnds env.toEnv)
  (hfuel : traceBudget ≤ env.fuel)

include hn hh hm hprover hfuel

/-- Passes that reach the node do not fail, and if none of them scans a block the log stays. -/
theorem ScannedTo.results (h : ScannedTo chain env.toEnv k sent) {ticks : List Tick}
    {tip batch : Nat} (hhonest : ∀ t ∈ ticks, t.Honest chain)
    (hreaches : ∀ t ∈ ticks, t.Reaches tip batch) :
    ∃ results : List (Option ScanBlockOutcome),
      history (passStep c env) sent ticks = results.map .ok ∧
      ((∀ r ∈ results, r = none) →
        ScannedTo chain env.toEnv k (final (passStep c env) sent ticks)) := by
  induction ticks generalizing k sent with
  | nil => exact ⟨[], rfl, fun _ => h⟩
  | cons tick ticks ih =>
    obtain ⟨htick, hhonest⟩ := List.forall_mem_cons.mp hhonest
    obtain ⟨hreach, hreaches⟩ := List.forall_mem_cons.mp hreaches
    obtain ⟨k', -, hscanned, hpass⟩ := h.scanOnce hh hm hn htick
    obtain ⟨-, result, hresult, hnone⟩ := hpass hprover hfuel tip batch hreach
    obtain ⟨results, hresults, hstay⟩ := ih hscanned hhonest hreaches
    refine ⟨result :: results, ?_, fun hall => ?_⟩
    · rw [history_cons, passStep, hresult, hresults]
      rfl
    · obtain ⟨hfirst, hall⟩ := List.forall_mem_cons.mp hall
      exact hnone hfirst ▸ hstay hall

end

/-- After passes that do not fail an error is only left where none of them scanned a block. -/
theorem foldl_errorAfter {results : List (Option ScanBlockOutcome)} {last : Option String}
    (h : (results.map Except.ok).foldl errorAfter last ≠ none) : ∀ r ∈ results, r = none := by
  induction results generalizing last with
  | nil => simp
  | cons r results ih =>
    refine List.forall_mem_cons.mpr ⟨?_, ih h⟩
    cases r with
    | none => rfl
    | some o =>
      have hclear : ∀ results : List (Option ScanBlockOutcome),
          (results.map Except.ok).foldl errorAfter none = none := by
        intro results
        induction results with
        | nil => rfl
        | cons r results ih => cases r <;> exact ih
      exact absurd (hclear results) h

/-! ## The shown tip -/

omit [DecidableEq H] in
theorem Adds.chainTip {trace' : List FollowerEvent} {tip : UInt64} {clock : Nat → UInt64}
    (h : Adds (FollowerEvent.Quiet turn) trace trace') (htip : turn.currentChainTip = .ok tip)
    (hsaw : (observed clock trace).lastChainTipHeight = some tip) :
    (observed clock trace').lastChainTipHeight = some tip := by
  obtain ⟨new, rfl, hnew⟩ := h
  induction new using List.reverseRecOn with
  | nil => rwa [List.append_nil]
  | append_singleton new e ih =>
    obtain ⟨hbefore, he⟩ := List.forall_mem_append.mp hnew
    have hquiet : e.Quiet turn := he e (List.mem_singleton_self e)
    have hsame := ih hbefore
    rw [← List.append_assoc, observed_concat]
    cases e with
    | sawTip tip' =>
      obtain rfl := Except.ok.inj (htip.symm.trans hquiet)
      rfl
    | _ => exact hsame

/-- A pass that does not fail leaves the tip that it was told. -/
theorem tracedScan_chainTip (hn : c.NounLaws) (trace : List FollowerEvent) {turn : FollowerTurn}
    {tip : UInt64} {result : Option ScanBlockOutcome} (clock : Nat → UInt64)
    (htip : turn.currentChainTip = .ok tip) (hok : (tracedScan c env trace turn).2 = .ok result) :
    (observed clock (spawnTurn c env trace turn)).lastChainTipHeight = some tip := by
  have hturn : spawnTurn c env trace turn = (tracedScan c env trace turn).1 := by
    unfold spawnTurn
    generalize tracedScan c env trace turn = r at hok ⊢
    obtain ⟨trace', result'⟩ := r
    obtain rfl : result' = .ok result := hok
    rfl
  rw [hturn]
  unfold tracedScan at hok ⊢
  generalize tracedScanState c env trace = scanned at hok ⊢
  obtain ⟨trace', scanState⟩ := scanned
  cases scanState with
  | error e => cases hok
  | ok st =>
    dsimp only at hok ⊢
    generalize tracedGenesisProof c env trace' st = booted at hok ⊢
    obtain ⟨trace'', proved⟩ := booted
    cases proved with
    | error e => cases hok
    | ok u =>
      dsimp only at hok ⊢
      rw [htip] at hok ⊢
      have hsaw : (observed clock (trace'' ++ [.sawTip tip])).lastChainTipHeight = some tip := by
        rw [observed_concat]
        rfl
      dsimp only at hok ⊢
      cases hplan : planHeights st tip turn.batchMax with
      | none => exact hsaw
      | some heights =>
        rw [hplan] at hok
        dsimp only at hok ⊢
        cases hfetch : turn.prefetch heights with
        | error e =>
          rw [hfetch] at hok
          cases hok
        | ok prefetched =>
          have hbatch := tracedBatch_cases env turn.hullFree turn hn (trace'' ++ [.sawTip tip])
            prefetched
          dsimp only
          generalize tracedBatch c env turn.hullFree (trace'' ++ [.sawTip tip]) prefetched = r
            at hbatch ⊢
          cases hbatch with
          | idle adds log => exact (adds.mono fun _ he => he.1).chainTip htip hsaw
          | failed adds => exact adds.chainTip htip hsaw
          | advanced adds gains =>
            rw [observed_concat]
            exact adds.chainTip htip hsaw

section

variable {chain : LinkedChain c} (hn : c.NounLaws) (hh : env.HashLaws) (hm : env.MapLaws)

include hn hh hm

theorem scannedTo_spawnTrace {turns : List FollowerTurn}
    (hhonest : ∀ t ∈ turns, t.toTick.Honest chain) :
    ∃ k, ScannedTo chain env.toEnv k (pokesOf (spawnTrace c env turns)) := by
  obtain ⟨k, -, hscanned, -⟩ : ∃ k, _ ∧ ScannedTo chain env.toEnv k
      (followerPokes c env (turns.map FollowerTurn.toTick)) ∧ _ :=
    (ScannedTo.start chain env.toEnv).passes hh hm hn (List.forall_mem_map.mpr hhonest)
  rw [pokesOf_spawnTrace]
  exact ⟨k, hscanned⟩

/-- The tip that is shown after passes that reach the node. -/
theorem spawnTrace_chainTip (hprover : ProverEnds env.toEnv) (hfuel : traceBudget ≤ env.fuel)
    (clock : Nat → UInt64) {turns : List FollowerTurn} {turn : FollowerTurn}
    (hturns : ∀ t ∈ turns, t.toTick.Honest chain) (hturn : turn.toTick.Honest chain) {tip : UInt64}
    {batch : Nat} (hreaches : turn.toTick.Reaches tip.toNat batch)
    (htip : turn.currentChainTip = .ok tip) :
    (observed clock (spawnTrace c env (turns ++ [turn]))).lastChainTipHeight = some tip := by
  obtain ⟨k, hscanned⟩ := scannedTo_spawnTrace hn hh hm hturns
  obtain ⟨k', -, -, hpass⟩ := hscanned.scanOnce hh hm hn hturn
  obtain ⟨-, result, hresult, -⟩ := hpass hprover hfuel tip.toNat batch hreaches
  rw [← erase_tracedScan] at hresult
  have hshown := tracedScan_chainTip hn (spawnTrace c env turns) clock htip hresult
  unfold spawnTrace at hshown ⊢
  rw [List.foldl_append]
  exact hshown

end

/-- Once passes that reach the node at a tip have had batches enough, the status says that the
follower is caught up. An older error is only left where there was no block to scan. -/
theorem status_catches_up (hn : c.NounLaws) (hh : env.HashLaws) (hm : env.MapLaws)
    (hprover : ProverEnds env.toEnv) (hfuel : traceBudget ≤ env.fuel) (chain : LinkedChain c)
    (settlement : SettlementStatus) (clock : Nat → UInt64) (nowMillis : UInt64)
    (before passes : List FollowerTurn) (hbefore : ∀ t ∈ before, t.toTick.Honest chain)
    (hpasses : ∀ t ∈ passes, t.toTick.Honest chain) (tip : UInt64) (batch : Nat)
    (htip : ∀ t ∈ passes, t.currentChainTip = .ok tip)
    (hreaches : ∀ t ∈ passes, t.toTick.Reaches tip.toNat batch) (hsome : passes ≠ [])
    (hgenesis : Kernel.nnsGenesisHeight + 10 ≤ tip.toNat)
    (henough : finalBlocks tip.toNat ≤ batch * passes.length + (runBlocks env.toEnv
      (followerPokes c env (before.map FollowerTurn.toTick))).length) (r : StatusResponse)
    (hr : statusAt c env settlement clock nowMillis (spawnTrace c env (before ++ passes))
      (spawnTrace c env (before ++ passes)) = r) :
    r.follower.chainTipHeight = some tip ∧ r.follower.isCaughtUp = some true ∧
      (∃ lag, r.follower.anchorLagBlocks = some lag ∧ lag ≤ 10) ∧
      (r.follower.lastError ≠ none → finalBlocks tip.toNat ≤
        (runBlocks env.toEnv (followerPokes c env (before.map FollowerTurn.toTick))).length) := by
  subst hr
  obtain ⟨k, hscanned⟩ := scannedTo_spawnTrace hn hh hm hbefore
  rw [pokesOf_spawnTrace] at hscanned
  have hpasses' := List.forall_mem_map.mpr hpasses
  have hreaches' := List.forall_mem_map.mpr hreaches
  obtain ⟨k', -, hscanned', hprogress⟩ := hscanned.passes hh hm hn hpasses'
  obtain ⟨results, hresults, hstay⟩ := hscanned.results hn hh hm hprover hfuel hpasses' hreaches'
  have hfinal : (passes.map FollowerTurn.toTick).foldl
      (fun sent tick => (Hull.scanOnce c env sent tick).1)
      (followerPokes c env (before.map FollowerTurn.toTick))
      = pokesOf (spawnTrace c env (before ++ passes)) := by
    rw [pokesOf_spawnTrace, List.map_append]
    exact List.foldl_append.symm
  have hlength : (runBlocks env.toEnv (followerPokes c env
      (before.map FollowerTurn.toTick))).length = k := by
    rw [hscanned.log, LinkedChain.length_log]
  rw [hlength] at henough ⊢
  have hk' : finalBlocks tip.toNat ≤ k' := by
    have hle := hprogress hprover hfuel tip.toNat batch hreaches'
    rw [List.length_map] at hle
    omega
  have hshown : (observed clock (spawnTrace c env (before ++ passes))).lastChainTipHeight
      = some tip := by
    obtain ⟨front, last, rfl⟩ := (List.eq_nil_or_concat passes).resolve_left hsome
    have hlast : last ∈ front.concat last := by simp
    have hfront : ∀ t ∈ before ++ front, t.toTick.Honest chain :=
      List.forall_mem_append.mpr ⟨hbefore, fun t ht => hpasses t (by simp [ht])⟩
    rw [List.concat_eq_append, ← List.append_assoc]
    exact spawnTrace_chainTip hn hh hm hprover hfuel clock hfront (hpasses last hlast)
      (hreaches last hlast) (htip last hlast)
  rw [hfinal] at hscanned'
  obtain ⟨st, hst, hmirrors⟩ := hscanned'.followerScanState hh hm hn
  obtain ⟨hlag, hcaught⟩ := lagStatus_eq (hscanned'.runInv hh hm) hmirrors tip
  have hcursor : tip.toNat - cursorHeight (chain.log k') ≤ 10 := by
    have hne : chain.log k' ≠ [] := by
      intro hnil
      have hzero := congrArg List.length hnil
      rw [LinkedChain.length_log, List.length_nil] at hzero
      unfold finalBlocks at hk'
      omega
    rw [cursorHeight, if_neg hne, LinkedChain.length_log]
    unfold finalBlocks at hk'
    omega
  refine ⟨hshown, ?_, ⟨_, ?_, UInt64.le_iff_toNat_le.mpr (hlag.trans_le hcursor)⟩, fun herror => ?_⟩
  · have htrue := hcaught.mpr (hcursor.trans (by decide))
    simp [statusAt, statusResponse, hshown, hst, Except.toOption, htrue]
  · simp [statusAt, statusResponse, hshown, hst, Except.toOption]
  · have hfold : (followerResults c env ((before ++ passes).map FollowerTurn.toTick)).foldl
        errorAfter none ≠ none := by
      rwa [← (atRest_spawnTrace env hn hh hm clock (before ++ passes)).lastError]
    unfold followerResults at hfold
    rw [List.map_append, history_append] at hfold
    have hafter : final (passStep c env) [] (before.map FollowerTurn.toTick)
        = followerPokes c env (before.map FollowerTurn.toTick) := rfl
    rw [hafter, hresults, List.foldl_append] at hfold
    have hsame := hstay (foldl_errorAfter hfold)
    have hlog : chain.log k' = chain.log k := by
      rw [← hscanned'.log, ← hsame.log, ← hfinal]
      rfl
    have hkk := congrArg List.length hlog
    rw [LinkedChain.length_log, LinkedChain.length_log] at hkk
    omega

/-- Two passes after one that found the tip too low. -/
theorem status_catches_up_sample :
    let trace := spawnTrace sampleCrates samplePeekEnv
      ([servedTurn 5] ++ [servedTurn 63012, servedTurn 63012])
    (statusAt sampleCrates samplePeekEnv sampleSettlement UInt64.ofNat 9 trace
      trace).follower.isCaughtUp = some true := by
  have hpasses : ∀ t ∈ [servedTurn 63012, servedTurn 63012], t = servedTurn 63012 := by simp
  have hreaches : (servedTick sampleServed 63012).Reaches 63012 2 :=
    ⟨⟨_, rfl, le_rfl⟩, le_rfl, fun _ _ _ _ _ => ⟨_, rfl⟩⟩
  exact (@status_catches_up _ _ _ _ _ sampleCrates samplePeekEnv _ sampleCrates_nounLaws
    sampleEnv_hashLaws sampleEnv_mapLaws (fun _ _ _ _ h => by cases h) (by decide) sampleChain
    sampleSettlement UInt64.ofNat 9 [servedTurn 5] [servedTurn 63012, servedTurn 63012]
    (List.forall_mem_singleton.mpr (honest_servedTick (by decide)))
    (fun t ht => hpasses t ht ▸ honest_servedTick (by decide)) 63012 2
    (fun t ht => hpasses t ht ▸ rfl) (fun t ht => hpasses t ht ▸ hreaches) (by simp) (by decide)
    (Nat.le_add_right_of_le (by decide)) _ rfl).2.1

end NnsVerified.Hull
