import NnsVerified.Hull.Proofs.StatusProofs

/-!
# The status between passes

Between two passes the telemetry is determined by the results of the passes: an error stays until a
pass scans a block, and without an error the cursor is where the last batch ended.
-/

namespace NnsVerified.Hull

open NnsVerified.Hoon NnsVerified.Library NnsVerified.Kernel

variable {H Z L Acc Vesl : Type} {c : Crates H Z L} {env : PeekEnv Acc Vesl}
  {trace : List FollowerEvent} [DecidableEq H] {turn : FollowerTurn}

/-- What a pass leaves for the operator to see: its error, and no older error once it has scanned a
block. A pass that finds nothing to scan leaves what there was. -/
def errorAfter (last : Option String) : Except String (Option ScanBlockOutcome) → Option String
  | .error e => some e
  | .ok (some _) => none
  | .ok none => last

/-- The last batch that a pass has scanned, its height and its length. -/
def advanceAfter (last : Option (UInt64 × Nat)) :
    Except String (Option ScanBlockOutcome) → Option (UInt64 × Nat)
  | .ok (some o) => some (o.height, o.blocksApplied)
  | _ => last

/-- A pass, as the step of a machine whose events are the results. -/
def passStep (c : Crates H Z L) (env : PeekEnv Acc Vesl) (sent : List Noun) (tick : Tick) :
    List Noun × Option (Except String (Option ScanBlockOutcome)) :=
  ((scanOnce c env sent tick).1, some (scanOnce c env sent tick).2)

/-- The results of the passes of a run. -/
def followerResults (c : Crates H Z L) (env : PeekEnv Acc Vesl) (ticks : List Tick) :
    List (Except String (Option ScanBlockOutcome)) := history (passStep c env) [] ticks

theorem followerResults_concat (ticks : List Tick) (tick : Tick) :
    followerResults c env (ticks ++ [tick]) = followerResults c env ticks ++
      [(scanOnce c env (followerPokes c env ticks) tick).2] := by
  unfold followerResults
  rw [history_append, history_cons, history_nil]
  rfl

/-- What the hull remembers between two passes, for the results of the passes before. -/
structure AtRest (env : Env Acc Vesl) (results : List (Except String (Option ScanBlockOutcome)))
    (sent : List Noun) (o : FollowerObservability) : Prop where
  lastError : o.lastError = results.foldl errorAfter none
  phase : o.lastErrorPhase = o.lastError.map fun _ => .scanBlock
  errorAt : o.lastErrorAtEpochMs.isSome = o.lastError.isSome
  advance : results.foldl advanceAfter none
    = o.lastAdvanceTipHeight.bind fun height => o.lastAdvanceCount.map fun count => (height, count)
  /-- Without an error the cursor is where the last batch ended. -/
  cursor : o.lastError = none →
    cursorHeight (runBlocks env sent) = (o.lastAdvanceTipHeight.map UInt64.toNat).getD 0

/-- The telemetry apart from the tip. -/
def FollowerObservability.withoutTip (o : FollowerObservability) : FollowerObservability :=
  { o with lastChainTipHeight := none, lastChainTipObservedAtEpochMs := none }

omit [DecidableEq H] in
theorem Adds.withoutTip {trace' : List FollowerEvent}
    (h : Adds (fun e => e.Quiet turn ∧ ¬e.Fails) trace trace') (clock : Nat → UInt64) :
    (observed clock trace').withoutTip = (observed clock trace).withoutTip := by
  obtain ⟨new, rfl, hnew⟩ := h
  induction new using List.reverseRecOn with
  | nil => rw [List.append_nil]
  | append_singleton new e ih =>
    obtain ⟨hnew, he⟩ := List.forall_mem_append.mp hnew
    obtain ⟨hquiet, hfails⟩ := he e (List.mem_singleton_self e)
    rw [← List.append_assoc, observed_concat, ← ih hnew]
    cases e with
    | advanced tipHeight count => exact hquiet.elim
    | failed phase err => exact absurd trivial hfails
    | sawTip tip => rfl
    | poked input => rfl

omit [DecidableEq H] in
theorem Adds.lastAdvance {trace' : List FollowerEvent}
    (h : Adds (FollowerEvent.Quiet turn) trace trace') (clock : Nat → UInt64) :
    (observed clock trace').lastAdvanceTipHeight = (observed clock trace).lastAdvanceTipHeight ∧
      (observed clock trace').lastAdvanceCount = (observed clock trace).lastAdvanceCount := by
  obtain ⟨new, rfl, hnew⟩ := h
  induction new using List.reverseRecOn with
  | nil => rw [List.append_nil]; exact ⟨rfl, rfl⟩
  | append_singleton new e ih =>
    obtain ⟨hbefore, he⟩ := List.forall_mem_append.mp hnew
    have hquiet : e.Quiet turn := he e (List.mem_singleton_self e)
    have hsame := ih hbefore
    rw [← List.append_assoc, observed_concat]
    cases e with
    | advanced tipHeight count => exact hquiet.elim
    | _ => exact hsame

section

variable (hn : c.NounLaws) (hh : env.HashLaws) (hm : env.MapLaws)

include hn hh hm

/-- The step of `atRest_spawnTrace`. -/
theorem AtRest.spawnTurn {results : List (Except String (Option ScanBlockOutcome))}
    {clock : Nat → UInt64}
    (h : AtRest env.toEnv results (pokesOf trace) (observed clock trace)) (turn : FollowerTurn) :
    AtRest env.toEnv (results ++ [(scanOnce c env (pokesOf trace) turn.toTick).2])
      (pokesOf (spawnTurn c env trace turn)) (observed clock (spawnTurn c env trace turn)) := by
  have hcases := tracedScan_cases env hn trace turn
  have herase := erase_tracedScan c env trace turn
  rw [← herase]
  unfold Hull.spawnTurn
  generalize tracedScan c env trace turn = r at hcases ⊢
  cases hcases with
  | @idle trace' adds log =>
    have hsame := adds.withoutTip clock
    simp only [FollowerObservability.withoutTip, FollowerObservability.mk.injEq] at hsame
    obtain ⟨-, -, -, hheight, hcount, herror, hat, hphase⟩ := hsame
    dsimp only
    constructor
    · rw [herror, h.lastError, List.foldl_append]
      rfl
    · rw [hphase, herror, h.phase]
    · rw [hat, herror, h.errorAt]
    · rw [hheight, hcount, ← h.advance, List.foldl_append]
      rfl
    · rw [herror, hheight, log]
      exact h.cursor
  | @failed trace' e adds =>
    obtain ⟨hheight, hcount⟩ := adds.lastAdvance clock
    dsimp only
    rw [observed_concat]
    constructor
    · rw [List.foldl_append]
      rfl
    · rfl
    · rfl
    · show _ = (observed clock trace').lastAdvanceTipHeight.bind _
      rw [hheight, List.foldl_append]
      show results.foldl advanceAfter none = Option.bind _ fun height =>
        (observed clock trace').lastAdvanceCount.map fun count => (height, count)
      rw [hcount, h.advance]
    · intro hnone
      cases hnone
  | @advanced trace' o adds gains =>
    dsimp only
    rw [observed_concat]
    constructor
    · rw [List.foldl_append]
      rfl
    · rfl
    · rfl
    · rw [List.foldl_append]
      rfl
    · intro _
      rw [pokesOf_append, pokesOf_advanced, pokesOf_nil, List.append_nil, gains.cursor hh hm]
      rfl

variable (env) in
theorem atRest_spawnTrace (clock : Nat → UInt64) (turns : List FollowerTurn) :
    AtRest env.toEnv (followerResults c env (turns.map FollowerTurn.toTick))
      (pokesOf (spawnTrace c env turns)) (observed clock (spawnTrace c env turns)) := by
  induction turns using List.reverseRecOn with
  | nil => exact ⟨rfl, rfl, rfl, rfl, fun _ => rfl⟩
  | append_singleton turns turn ih =>
    rw [List.map_append, List.map_singleton, followerResults_concat, ← pokesOf_spawnTrace]
    unfold spawnTrace at ih ⊢
    rw [List.foldl_append]
    exact ih.spawnTurn hn hh hm turn

end

/-- Between two passes of a run on a fresh kernel the shown error is that of the last pass that failed,
unless a later one has scanned a block, and its phase is always `scan_block`. Where none is shown, the
kernel is where the shown batch ended. -/
theorem status_at_rest (hn : c.NounLaws) (hh : env.HashLaws) (hm : env.MapLaws)
    (settlement : SettlementStatus) (clock : Nat → UInt64) (nowMillis : UInt64)
    (turns : List FollowerTurn) (r : StatusResponse)
    (hr : statusAt c env settlement clock nowMillis (spawnTrace c env turns)
      (spawnTrace c env turns) = r) :
    r.follower.lastError
        = (followerResults c env (turns.map FollowerTurn.toTick)).foldl errorAfter none ∧
      r.follower.lastErrorPhase = r.follower.lastError.map (fun _ => "scan_block") ∧
      r.follower.lastErrorAtEpochMs.isSome = r.follower.lastError.isSome ∧
      (r.follower.lastAdvanceTipHeight.bind fun height =>
          r.follower.lastAdvanceCount.map fun count => (height, count))
        = (followerResults c env (turns.map FollowerTurn.toTick)).foldl advanceAfter none ∧
      (r.follower.lastError = none → (runState env.toEnv (followerPokes c env
        (turns.map FollowerTurn.toTick))).lastProvedHeight
          = (r.follower.lastAdvanceTipHeight.map UInt64.toNat).getD 0) := by
  subst hr
  have hrest := atRest_spawnTrace env hn hh hm clock turns
  refine ⟨hrest.lastError, ?_, hrest.errorAt, hrest.advance.symm, fun hnone => ?_⟩
  · show (observed clock _).lastErrorPhase.map FollowerPhase.text = _
    rw [hrest.phase, Option.map_map]
    rfl
  · rw [(Kernel.runInv hh hm _).height, ← pokesOf_spawnTrace]
    exact hrest.cursor hnone

/-- A pass that finds no node. -/
def lostTurn : FollowerTurn :=
  ⟨{ servedTick sampleServed 5 with currentChainTip := .error "no node" }, true⟩

/-- What is shown after passes over the sample chain. -/
def shownAfter (turns : List FollowerTurn) : StatusResponse :=
  statusAt sampleCrates samplePeekEnv sampleSettlement UInt64.ofNat 9
    (spawnTrace sampleCrates samplePeekEnv turns) (spawnTrace sampleCrates samplePeekEnv turns)

/-- The error of a pass that finds no node is still shown after a pass with nothing to scan, and no
longer after one that scans blocks. -/
theorem status_at_rest_idle :
    (shownAfter [lostTurn, servedTurn 5]).follower.lastError
      = (followerResults sampleCrates samplePeekEnv
          ([lostTurn, servedTurn 5].map FollowerTurn.toTick)).foldl errorAfter none ∧
    (shownAfter [lostTurn, servedTurn 63012]).follower.lastError = none ∧
    (runState samplePeekEnv.toEnv (followerPokes sampleCrates samplePeekEnv
        ([lostTurn, servedTurn 63012].map FollowerTurn.toTick))).lastProvedHeight
      = ((shownAfter [lostTurn, servedTurn 63012]).follower.lastAdvanceTipHeight.map
          UInt64.toNat).getD 0 := by
  have hrest := @status_at_rest _ _ _ _ _ sampleCrates samplePeekEnv _ sampleCrates_nounLaws
    sampleEnv_hashLaws sampleEnv_mapLaws sampleSettlement UInt64.ofNat 9
  obtain ⟨herror, -⟩ := hrest [lostTurn, servedTurn 5] _ rfl
  obtain ⟨hcleared, -, -, -, hcursor⟩ := hrest [lostTurn, servedTurn 63012] _ rfl
  have hnone := hcleared.trans (by decide +kernel : _ = none)
  exact ⟨herror, hnone, hcursor hnone⟩

end NnsVerified.Hull
