import NnsVerified.Hull.Proofs.BlockProofs
import NnsVerified.Hull.Proofs.TrackingProofs
import NnsVerified.Kernel.Proofs.AtomicityProofs

/-!
# What a batch does to the kernel

A batch leaves the kernel where scanning a prefix of its blocks leaves it, whatever the transitions
of the blocks come to and whatever else is sent to the kernel that does not move the cursor. Before
the first block of all, the reserved row may be there already.
-/

namespace NnsVerified.Hull

open NnsVerified.Hoon NnsVerified.Library NnsVerified.Kernel

variable {H Z L Acc Vesl : Type} {c : Crates H Z L} {env : PeekEnv Acc Vesl}
  {others : Others env.toEnv} {injectedClaims : Option (List (List ClaimCandidate))}
  {s t : State Acc Vesl} [DecidableEq H] {idx : Nat} {block : ScanBlockFetch}

/-! ## The loop -/

/-- The pokes of blocks of a batch, from an index on. -/
def scanPokes (c : Crates H Z L) (injectedClaims : Option (List (List ClaimCandidate)))
    (idx : Nat) : List ScanBlockFetch → Except String (List Noun)
  | [] => .ok []
  | block :: blocks => do
    let (_, input) ← scanPoke c injectedClaims idx block
    let inputs ← scanPokes c injectedClaims (idx + 1) blocks
    return input :: inputs

/-- How many blocks of a batch are accepted, one after the other, by a kernel that gets nothing but
their `%scan-block` pokes. -/
def scanLength (c : Crates H Z L) (env : Env Acc Vesl)
    (injectedClaims : Option (List (List ClaimCandidate))) (idx : Nat) (t : State Acc Vesl) :
    List ScanBlockFetch → Nat
  | [] => 0
  | block :: blocks =>
    match scanPoke c injectedClaims idx block with
    | .error _ => 0
    | .ok (_, input) =>
      if (acceptedBlock env t input).isSome then
        scanLength c env injectedClaims (idx + 1) (nextState env t input) blocks + 1
      else 0

/-- What the loop has done when it stops: `m` blocks were accepted, from a reference state on. -/
structure LoopRun (c : Crates H Z L) (env : PeekEnv Acc Vesl)
    (injectedClaims : Option (List (List ClaimCandidate))) (idx : Nat) (t : State Acc Vesl)
    (blocks : List ScanBlockFetch) (lastDone : Option ScanBlockDone)
    (r : State Acc Vesl × Except Failure (Option ScanBlockDone)) (m : Nat) (inputs : List Noun) :
    Prop where
  le : m ≤ blocks.length
  prepared : scanPokes c injectedClaims idx (blocks.take m) = .ok inputs
  accepted : AcceptsAll env.toEnv t inputs
  settled : Settled env.toEnv (final (step env.toEnv) t inputs) r.1
  finished : ∀ lastDone', r.2 = .ok lastDone' → m = blocks.length ∧
    (blocks = [] ∧ lastDone' = lastDone ∨
      ∃ done, lastDone' = some done ∧ Reported c env (final (step env.toEnv) t inputs) done)
  stopped : r.2 ≠ .error .panic → m = scanLength c env.toEnv injectedClaims idx t blocks
  panicked : r.2 = .error .panic → GivesNarrowIds injectedClaims

section

variable {blocks : List ScanBlockFetch} {lastDone : Option ScanBlockDone}
  {r : State Acc Vesl × Except Failure (Option ScanBlockDone)} {m : Nat} {inputs : List Noun}
  {P : State Acc Vesl → State Acc Vesl → Prop}

/-- No block is accepted. -/
theorem LoopRun.nothing {u : State Acc Vesl} {msg : String} (hu : Settled env.toEnv t u)
    (hlength : scanLength c env.toEnv injectedClaims idx t blocks = 0) :
    LoopRun c env injectedClaims idx t blocks lastDone (u, .error (.message msg)) 0 [] where
  le := Nat.zero_le _
  prepared := rfl
  accepted := trivial
  settled := hu
  finished _ h := by cases h
  stopped _ := hlength.symm
  panicked h := by cases h

/-- One block more is accepted. -/
theorem LoopRun.cons {claims : List ClaimCandidate} {b : ScanBlock} {done : ScanBlockDone}
    (hpoke : scanPoke c injectedClaims idx block = .ok (claims, b.noun))
    (hacc : acceptedBlock env.toEnv t b.noun = some b)
    (hdone : Reported c env (nextState env.toEnv t b.noun) done)
    (h : LoopRun c env injectedClaims (idx + 1) (nextState env.toEnv t b.noun) blocks (some done) r
      m inputs) :
    LoopRun c env injectedClaims idx t (block :: blocks) lastDone r (m + 1) (b.noun :: inputs) where
  le := Nat.succ_le_succ h.le
  prepared := by
    rw [List.take_succ_cons, scanPokes, hpoke, ok_bind]
    show (scanPokes c injectedClaims (idx + 1) (blocks.take m)).bind _ = _
    rw [h.prepared]
    rfl
  accepted := ⟨by rw [hacc]; rfl, h.accepted⟩
  settled := h.settled
  finished lastDone' hlast := by
    obtain ⟨hm, ⟨rfl, rfl⟩ | hreported⟩ := h.finished lastDone' hlast
    · -- the last block of the batch
      have hinputs := h.prepared
      rw [List.take_nil] at hinputs
      obtain rfl := Except.ok.inj hinputs
      exact ⟨by rw [hm]; rfl, Or.inr ⟨done, rfl, hdone⟩⟩
    · exact ⟨by rw [hm]; rfl, Or.inr hreported⟩
  stopped hpanic := by
    rw [scanLength, hpoke]
    dsimp only
    rw [hacc, if_pos (Option.isSome_some), h.stopped hpanic]
  panicked := h.panicked

/-- The loop on a kernel that a reference state follows. -/
theorem applyFetchedBlocks_run (hn : c.NounLaws) (htracks : Tracks others P) (h : P t s) :
    ∃ m inputs, LoopRun c env injectedClaims idx t blocks lastDone
      (applyFetchedBlocks c env others injectedClaims idx s lastDone blocks) m inputs := by
  induction blocks generalizing idx s t lastDone with
  | nil =>
    exact ⟨0, [], {
      le := le_rfl
      prepared := rfl
      accepted := trivial
      settled := htracks.settled h
      finished := fun _ hlast => ⟨rfl, Or.inl ⟨rfl, (Except.ok.inj hlast).symm⟩⟩
      stopped := fun _ => rfl
      panicked := fun hpanic => by cases hpanic }⟩
  | cons block blocks ih =>
    have hgap := htracks.gap (.scan idx) h
    have hblock : BlockRun c env others injectedClaims idx s block
        (applyFetchedBlock c env others injectedClaims idx s block) := applyFetchedBlock_run hn
    rw [applyFetchedBlocks]
    generalize applyFetchedBlock c env others injectedClaims idx s block = result at hblock
    cases hblock with
    | unprepared hpoke =>
      refine ⟨0, [], .nothing (htracks.settled hgap) ?_⟩
      rw [scanLength, hpoke]
    | rejected hpoke hnone =>
      obtain ⟨hnone', hsettled⟩ := htracks.reject hgap hnone
      refine ⟨0, [], .nothing hsettled ?_⟩
      rw [scanLength, hpoke]
      dsimp only
      rw [hnone']
      rfl
    | @stuck claims b u hpoke hacc hu hnarrow =>
      obtain ⟨hacc', hnext⟩ := htracks.accept hgap hacc
      refine ⟨1, [b.noun], {
        le := Nat.succ_le_succ (Nat.zero_le _)
        prepared := ?_
        accepted := ⟨by rw [hacc']; rfl, trivial⟩
        settled := hu ▸ htracks.settled (htracks.gap (.proof idx) hnext)
        finished := fun _ hlast => by cases hlast
        stopped := fun hpanic => absurd rfl hpanic
        panicked := fun _ => givesNarrowIds_of_scanPoke hpoke hnarrow }⟩
      rw [List.take_succ_cons, List.take_zero, scanPokes, hpoke]
      rfl
    | @done claims b u u' done hpoke hacc hdone hu hu' =>
      obtain ⟨hacc', hnext⟩ := htracks.accept hgap hacc
      have hproof := hu ▸ htracks.gap (.proof idx) hnext
      have hlast : P (nextState env.toEnv t b.noun) u' := by
        rcases hu' with rfl | ⟨p, rfl⟩
        · exact hproof
        · exact htracks.transition p (htracks.gap (.transition idx) hproof)
      have hsame := (htracks.settled hnext).same (nextState_of_accepted hacc').boot_eq_false
      have hdone' := hdone.transfer hsame
      obtain ⟨m, inputs, hrun⟩ := ih hlast
      exact ⟨m + 1, b.noun :: inputs, hrun.cons hpoke hacc' hdone'⟩

end

/-! ## The batch -/

theorem length_scanPokes {blocks : List ScanBlockFetch} {inputs : List Noun}
    (h : scanPokes c injectedClaims idx blocks = .ok inputs) : inputs.length = blocks.length := by
  induction blocks generalizing idx inputs with
  | nil =>
    obtain rfl := Except.ok.inj h
    rfl
  | cons block blocks ih =>
    obtain ⟨r, -, h⟩ := bind_eq_ok h
    obtain ⟨rest, hrest, h⟩ := bind_eq_ok h
    obtain rfl := Except.ok.inj h
    rw [List.length_cons, List.length_cons, ih hrest]

omit [DecidableEq H] in
theorem boot_final_of_acceptsAll {inputs : List Noun} (h : AcceptsAll env.toEnv t inputs)
    (hne : inputs ≠ []) : (final (step env.toEnv) t inputs).boot = false := by
  induction inputs generalizing t with
  | nil => exact absurd rfl hne
  | cons input inputs ih =>
    by_cases hlast : inputs = []
    · subst hlast
      obtain ⟨b, hacc⟩ := Option.isSome_iff_exists.mp h.1
      exact (nextState_of_accepted hacc).boot_eq_false
    · exact ih h.2 hlast

omit [DecidableEq H] in
/-- The scan state that the hull peeks is the one that it was told. -/
theorem Reported.peeked (hn : c.NounLaws) {done : ScanBlockDone} {st : ScanState}
    (h : Reported c env t done) (hst : scanStateOf c env t = .ok st) :
    done = ⟨st.lastProvedHeight, st.lastProvedDigest, st.accumulatorRoot⟩ := by
  unfold scanStateOf at hst
  rw [buildScanStatePeek_eq hn] at hst
  obtain ⟨answer, hanswer, hdecode⟩ := bind_eq_ok hst
  obtain ⟨value, hvalue, rfl⟩ := peekNoun_path_ok (mapError_eq_ok.mp hanswer)
  obtain ⟨root, hroot, hvalue⟩ := bind_eq_ok (show peekScanState env.toEnv t = .ok value from hvalue)
  obtain rfl := Except.ok.inj hvalue
  obtain ⟨hheight, -, rfl⟩ := (decodeScanState_eq_ok hn _ _ _ _ st).mp (mapError_eq_ok.mp hdecode)
  obtain ⟨root', hroot', hdone⟩ := h.root
  obtain rfl := Except.ok.inj (hroot.symm.trans hroot')
  obtain ⟨height, digest, accumulatorRoot⟩ := done
  obtain rfl : accumulatorRoot = c.asNeBytes root := hdone
  obtain rfl : digest = c.asNeBytes t.lastProvedDigest := h.digest
  have hnum : height = UInt64.ofNat t.lastProvedHeight := by
    rw [← UInt64.toNat_inj, UInt64.toNat_ofNat_of_lt' hheight]
    exact h.height
  rw [hnum]

/-- What a batch comes to: its first `m` blocks are accepted and leave the kernel with the cursor and
the accumulator that it has, where only the first block of all may leave the reserved row. The
outcome tells of the whole batch. -/
structure AppliesPrefix (c : Crates H Z L) (env : PeekEnv Acc Vesl)
    (injectedClaims : Option (List (List ClaimCandidate))) (s : State Acc Vesl)
    (blocks : List ScanBlockFetch) (r : State Acc Vesl × Except Failure (Option ScanBlockOutcome))
    (m : Nat) (inputs : List Noun) : Prop where
  le : m ≤ blocks.length
  prepared : scanPokes c injectedClaims 0 (blocks.take m) = .ok inputs
  accepted : AcceptsAll env.toEnv s inputs
  settled : Settled env.toEnv (final (step env.toEnv) s inputs) r.1
  same : m ≠ 0 → SameScan (final (step env.toEnv) s inputs) r.1
  outcome : ∀ o, r.2 = .ok (some o) → m = blocks.length ∧ o.blocksApplied = m ∧
    Reported c env r.1 ⟨o.height, o.digest, o.accumulatorRoot⟩ ∧
    ∀ st, scanStateOf c env r.1 = .ok st → o.height = st.lastProvedHeight ∧
      o.digest = st.lastProvedDigest ∧ o.accumulatorRoot = st.accumulatorRoot
  idle : r.2 = .ok none → blocks = []
  /-- Nothing is sent where the cursor cannot be read, and nothing where the batch fails the check. -/
  unread : ∀ e, scanStateOf c env s = .error e → m = 0 ∧ r.1 = s
  invalid : ∀ st e, scanStateOf c env s = .ok st →
    validateScanBlockChain st.lastProvedHeight st.lastProvedDigest blocks = .error e →
    m = 0 ∧ r = (s, .error (.message e))
  /-- After the check, only a panic of the builder of a transition poke stops the batch before a block
  that the kernel would take. -/
  stopped : ∀ st, scanStateOf c env s = .ok st →
    validateScanBlockChain st.lastProvedHeight st.lastProvedDigest blocks = .ok () →
    r.2 ≠ .error .panic → m = scanLength c env.toEnv injectedClaims 0 s blocks
  panicked : r.2 = .error .panic → GivesNarrowIds injectedClaims

/-- Nothing is sent. -/
theorem AppliesPrefix.nothing {blocks : List ScanBlockFetch}
    {result : Except Failure (Option ScanBlockOutcome)}
    (houtcome : ∀ o, result ≠ .ok (some o)) (hpanic : result ≠ .error .panic)
    (hidle : result = .ok none → blocks = [])
    (hscan : ∀ st, scanStateOf c env s = .ok st →
      match validateScanBlockChain st.lastProvedHeight st.lastProvedDigest blocks with
      | .error e => result = .error (.message e)
      | .ok () => blocks = []) :
    AppliesPrefix c env injectedClaims s blocks (s, result) 0 [] where
  le := Nat.zero_le _
  prepared := rfl
  accepted := trivial
  settled := ⟨rfl, rfl, Or.inl rfl⟩
  same h := absurd rfl h
  outcome o h := absurd h (houtcome o)
  idle := hidle
  unread _ _ := ⟨rfl, rfl⟩
  invalid st e hst hvalid := by
    have h := hscan st hst
    rw [hvalid] at h
    exact ⟨rfl, by rw [show result = .error (.message e) from h]⟩
  stopped st hst hvalid _ := by
    have h := hscan st hst
    rw [hvalid] at h
    obtain rfl : blocks = [] := h
    rfl
  panicked h := absurd h hpanic

theorem LoopRun.same {blocks : List ScanBlockFetch} {lastDone : Option ScanBlockDone}
    {r : State Acc Vesl × Except Failure (Option ScanBlockDone)} {m : Nat} {inputs : List Noun}
    (h : LoopRun c env injectedClaims idx t blocks lastDone r m inputs) (hm : m ≠ 0) :
    SameScan (final (step env.toEnv) t inputs) r.1 := by
  refine h.settled.same (boot_final_of_acceptsAll h.accepted fun hinputs => hm ?_)
  have hlength := length_scanPokes h.prepared
  rw [hinputs, List.length_take, min_eq_left h.le] at hlength
  exact hlength.symm

/-- What the loop has done is what the batch comes to. -/
theorem LoopRun.batch (hn : c.NounLaws) {blocks : List ScanBlockFetch} {u : State Acc Vesl}
    {result : Except Failure (Option ScanBlockDone)} {m : Nat} {inputs : List Noun}
    (hblocks : blocks ≠ []) {st : ScanState} (hst : scanStateOf c env s = .ok st)
    (hvalid : validateScanBlockChain st.lastProvedHeight st.lastProvedDigest blocks = .ok ())
    (h : LoopRun c env injectedClaims 0 s blocks none (u, result) m inputs) :
    AppliesPrefix c env injectedClaims s blocks (u, result.bind fun lastDone =>
      match lastDone with
      | none => .error (.message "prefetch produced no blocks (internal error)")
      | some done => .ok (some ⟨done.height, done.digest, done.accumulatorRoot, blocks.length⟩))
      m inputs := by
  have hfinished : ∀ lastDone, result = .ok lastDone → m = blocks.length ∧
      ∃ done, lastDone = some done ∧ Reported c env u done := by
    intro lastDone hresult
    obtain ⟨hm, ⟨hnil, -⟩ | ⟨done, hdone, hreported⟩⟩ := h.finished lastDone hresult
    · exact absurd hnil hblocks
    · have hpos : m ≠ 0 := by
        rw [hm]
        exact fun hzero => hblocks (List.length_eq_zero_iff.mp hzero)
      have hsame := h.same hpos
      exact ⟨hm, done, hdone, hreported.transfer hsame.symm⟩
  refine {
    le := h.le
    prepared := h.prepared
    accepted := h.accepted
    settled := h.settled
    same := h.same
    outcome := fun o ho => ?_
    idle := fun hidle => ?_
    unread := fun e he => ?_
    invalid := fun st' e hst' hinvalid => ?_
    stopped := fun _ _ _ hpanic => ?_
    panicked := fun hpanic => ?_ }
  · obtain ⟨lastDone, hresult, ho⟩ := bind_eq_ok ho
    obtain ⟨hm, done, rfl, hreported⟩ := hfinished lastDone hresult
    obtain rfl := Option.some.inj (Except.ok.inj ho)
    refine ⟨hm, hm.symm, hreported, fun st' hst' => ?_⟩
    have hpeeked := hreported.peeked hn hst'
    rw [hpeeked]
    exact ⟨rfl, rfl, rfl⟩
  · obtain ⟨lastDone, hresult, hidle⟩ := bind_eq_ok hidle
    obtain ⟨-, done, rfl, -⟩ := hfinished lastDone hresult
    cases hidle
  · rw [hst] at he
    cases he
  · obtain rfl := Except.ok.inj (hst.symm.trans hst')
    rw [hvalid] at hinvalid
    cases hinvalid
  · refine h.stopped fun hresult => hpanic ?_
    rw [show result = .error .panic from hresult]
    rfl
  · refine h.panicked ?_
    cases result with
    | error f =>
      obtain rfl : f = .panic := Except.error.inj hpanic
      rfl
    | ok lastDone =>
      obtain ⟨-, done, rfl, -⟩ := hfinished lastDone rfl
      cases hpanic

theorem applyPrefetchedScanBlocksInner_run (hn : c.NounLaws)
    {P : State Acc Vesl → State Acc Vesl → Prop} (htracks : Tracks others P) (h : P s s)
    (blocks : List ScanBlockFetch) : ∃ m inputs, AppliesPrefix c env injectedClaims s blocks
      (applyPrefetchedScanBlocksInner c env others injectedClaims s blocks) m inputs := by
  unfold applyPrefetchedScanBlocksInner
  by_cases hblocks : blocks = []
  · subst hblocks
    refine ⟨0, [], .nothing (by simp) (by simp) (fun _ => rfl) fun st _ => ?_⟩
    simp [validateScanBlockChain, validateScanBlockChain.loop]
  · have hempty : ¬blocks.isEmpty := by simpa using hblocks
    rw [if_neg hempty]
    cases hst : scanStateOf c env s with
    | error e =>
      refine ⟨0, [], .nothing (by simp) (by simp) (by simp) fun st hst' => ?_⟩
      rw [hst] at hst'
      cases hst'
    | ok st =>
      dsimp only
      cases hvalid : validateScanBlockChain st.lastProvedHeight st.lastProvedDigest blocks with
      | error e =>
        refine ⟨0, [], .nothing (by simp) (by simp) (by simp) fun st' hst' => ?_⟩
        obtain rfl := Except.ok.inj (hst.symm.trans hst')
        rw [hvalid]
      | ok _ =>
        obtain ⟨m, inputs, hrun⟩ : ∃ m inputs, LoopRun c env injectedClaims 0 s blocks none
            (applyFetchedBlocks c env others injectedClaims 0 s none blocks) m inputs :=
          applyFetchedBlocks_run hn htracks h
        generalize applyFetchedBlocks c env others injectedClaims 0 s none blocks = r at hrun
        exact ⟨m, inputs, hrun.batch hn hblocks hst hvalid⟩

/-- A batch applies a prefix of its blocks and reports what it did, on every state while the others
keep the accumulator, and on every reachable state whatever they send. -/
theorem batch_truthful (hn : c.NounLaws) (others : Others env.toEnv)
    (injectedClaims : Option (List (List ClaimCandidate))) (blocks : List ScanBlockFetch) :
    (∀ s, (∀ gap u, SameScan u (others.act gap u)) →
      ∃ m inputs, AppliesPrefix c env injectedClaims s blocks
        (applyPrefetchedScanBlocksInner c env others injectedClaims s blocks) m inputs) ∧
    (env.HashLaws → env.MapLaws → ∀ before,
      ∃ m inputs, AppliesPrefix c env injectedClaims (runState env.toEnv before) blocks
        (applyPrefetchedScanBlocksInner c env others injectedClaims (runState env.toEnv before)
          blocks) m inputs) := by
  constructor
  · intro s hquiet
    exact applyPrefetchedScanBlocksInner_run hn (tracks_quiet hquiet) ⟨rfl, rfl, rfl⟩ blocks
  · intro hh hm before
    have hinv := runInv hh hm before
    have hstart : SameBlocks env.toEnv (runState env.toEnv before) (runState env.toEnv before) :=
      ⟨⟨_, hinv, hinv⟩, ⟨rfl, rfl, Or.inl rfl⟩⟩
    exact applyPrefetchedScanBlocksInner_run hn (tracks_runs hh hm) hstart blocks

/-- A block at the wrong height, as it is fetched. -/
def earlyFetch : ScanBlockFetch := ⟨63001, [7], [], [], []⟩

/-- A block that lists a transaction twice. -/
def doubledFetch : ScanBlockFetch :=
  ⟨63001, [7], [], [List.replicate 40 0, List.replicate 40 0], []⟩

/-- A block that follows the block `63000`, and lists a transaction twice. -/
def doubledNext : ScanBlockFetch :=
  ⟨63001, [8], [7], [List.replicate 40 0, List.replicate 40 0], []⟩

/-- Another task that sends a poke in every gap where the poke keeps the cursor. -/
def sender (input : Noun) : Others samplePeekEnv.toEnv where
  pokes _ s :=
    if (nextState samplePeekEnv.toEnv s input).lastProvedHeight = s.lastProvedHeight ∧
        (nextState samplePeekEnv.toEnv s input).lastProvedDigest = s.lastProvedDigest
    then [input] else []
  keep _ s := by
    split
    · rename_i h
      exact ⟨h.1, h.2, trivial⟩
    · exact trivial

/-- Another task that sends a block at the wrong height. -/
def earlySender : Others samplePeekEnv.toEnv := sender earlyBlock.noun

/-- The first two blocks that the scan takes. -/
def linkedFetches : List ScanBlockFetch := [⟨63000, [7], [], [], []⟩, ⟨63001, [8], [7], [], []⟩]

theorem batch_truthful_early :
    (∃ m inputs, AppliesPrefix sampleCrates samplePeekEnv none seededState [earlyFetch]
      (applyPrefetchedScanBlocksInner sampleCrates samplePeekEnv (Others.none _) none seededState
        [earlyFetch]) m inputs) ∧
    (∃ m inputs, AppliesPrefix sampleCrates samplePeekEnv none (runState sampleEnv []) [earlyFetch]
      (applyPrefetchedScanBlocksInner sampleCrates samplePeekEnv earlySender none
        (runState sampleEnv []) [earlyFetch]) m inputs) ∧
    ∃ inputs, AppliesPrefix sampleCrates samplePeekEnv none (runState sampleEnv []) linkedFetches
      (applyPrefetchedScanBlocksInner sampleCrates samplePeekEnv earlySender none
        (runState sampleEnv []) linkedFetches) 2 inputs := by
  refine ⟨(batch_truthful sampleCrates_nounLaws (Others.none samplePeekEnv.toEnv) none
      [earlyFetch]).1 seededState fun _ _ => ⟨rfl, rfl, rfl⟩,
    (batch_truthful sampleCrates_nounLaws earlySender none [earlyFetch]).2
      sampleEnv_hashLaws sampleEnv_mapLaws [], ?_⟩
  obtain ⟨m, inputs, happlies⟩ := (batch_truthful sampleCrates_nounLaws earlySender none
    linkedFetches).2 sampleEnv_hashLaws sampleEnv_mapLaws []
  have houtcome : ((applyPrefetchedScanBlocksInner sampleCrates samplePeekEnv earlySender none
      (runState sampleEnv []) linkedFetches).2.toOption.bind id).isSome = true := by
    decide +kernel
  obtain ⟨o, ho⟩ := Option.isSome_iff_exists.mp houtcome
  obtain ⟨result, hresult, rfl⟩ := Option.bind_eq_some_iff.mp ho
  obtain ⟨rfl, -⟩ := happlies.outcome o (toOption_eq_some.mp hresult)
  exact ⟨inputs, happlies⟩

/-- A kernel that no run reaches: it has accepted a block, and its accumulator is empty. -/
def unseededState : State (List (NnsNameKey × NnsAccumulatorEntry)) Unit :=
  { fresh sampleEnv with lastProvedHeight := 63000, lastProvedDigest := 7 }

/-- That kernel with the reserved row. -/
def lateSeededState : State (List (NnsNameKey × NnsAccumulatorEntry)) Unit :=
  { unseededState with accumulator := seededState.accumulator }

/-- A fresh kernel that holds a proof. -/
def provedState : State (List (NnsNameKey × NnsAccumulatorEntry)) Unit :=
  { fresh sampleEnv with recursiveProof := some (.atom 1, .atom 1, .atom 1) }

/-- A claim whose ids are one byte wide. -/
def narrowClaim : ClaimCandidate := ⟨"a.nock", "eve", 0, [1], ⟨[1], [], 0, ""⟩⟩

theorem not_sameScan_seeded : ¬SameScan (fresh sampleEnv) seededState := by
  intro h
  have hacc := h.accumulator
  simp [seededState, fresh, sampleEnv, assocOps] at hacc

theorem not_sameScan_lateSeeded : ¬SameScan unseededState lateSeededState := by
  intro h
  have hacc := h.accumulator
  simp [lateSeededState, unseededState, seededState, fresh, sampleEnv, assocOps] at hacc

/-- Of a block that has no poke, no prefix has one. -/
theorem eq_nil_of_unprepared {inputs : List Noun} {m : Nat}
    (hnone : (scanPokes c injectedClaims 0 [block]).toOption = none)
    (h : scanPokes c injectedClaims 0 ([block].take m) = .ok inputs) : inputs = [] := by
  cases m with
  | zero => exact (Except.ok.inj h).symm
  | succ m =>
    rw [List.take_succ_cons, List.take_nil] at h
    rw [h] at hnone
    cases hnone

theorem not_acceptsAll_early {inputs : List Noun} {m : Nat}
    (h : scanPokes sampleCrates none 0 ([earlyFetch].take m) = .ok inputs)
    (haccepts : AcceptsAll sampleEnv (fresh sampleEnv) inputs) : inputs = [] := by
  cases m with
  | zero => exact (Except.ok.inj h).symm
  | succ m =>
    have hprepared : (scanPokes sampleCrates none 0 [earlyFetch]).toOption
        = some [earlyBlock.noun] := by
      decide
    rw [List.take_succ_cons, List.take_nil] at h
    obtain rfl := Except.ok.inj (h.symm.trans (toOption_eq_some.mp hprepared))
    have hnone : acceptedBlock sampleEnv (fresh sampleEnv) earlyBlock.noun = none := by
      unfold acceptedBlock
      rw [softCause_scanBlock, earlyBlock_rejected]
    have haccepted := haccepts.1
    rw [hnone] at haccepted
    cases haccepted

/-- On a fresh kernel, a batch leaves the reserved row behind when the kernel rejects its first
block, and so it does when another task got a block rejected and the batch has not sent any. On a
kernel that no run reaches, another task can seed the row at any cursor. With an injected claim of
narrow ids, a batch stops early on a kernel that holds a proof. -/
theorem batch_leaves_reserved_row :
    (∃ blocks, ∀ m inputs, scanPokes sampleCrates none 0 (blocks.take m) = .ok inputs →
      AcceptsAll sampleEnv (fresh sampleEnv) inputs →
      ¬SameScan (final (step sampleEnv) (fresh sampleEnv) inputs)
        (applyPrefetchedScanBlocksInner sampleCrates samplePeekEnv (Others.none _) none
          (fresh sampleEnv) blocks).1) ∧
    (∃ (others : Others samplePeekEnv.toEnv) (blocks : List ScanBlockFetch), ∀ m inputs,
      scanPokes sampleCrates none 0 (blocks.take m) = .ok inputs →
      ¬SameScan (final (step sampleEnv) (fresh sampleEnv) inputs)
        (applyPrefetchedScanBlocksInner sampleCrates samplePeekEnv others none (fresh sampleEnv)
          blocks).1) ∧
    (∃ (others : Others samplePeekEnv.toEnv) (blocks : List ScanBlockFetch),
      unseededState.lastProvedHeight ≠ 0 ∧ ∀ m inputs,
      scanPokes sampleCrates none 0 (blocks.take m) = .ok inputs →
      ¬SameScan (final (step sampleEnv) unseededState inputs)
        (applyPrefetchedScanBlocksInner sampleCrates samplePeekEnv others none unseededState
          blocks).1) ∧
    ∃ injectedClaims blocks,
      (applyPrefetchedScanBlocksInner sampleCrates samplePeekEnv (Others.none _) injectedClaims
        (fresh sampleEnv) blocks).1.lastProvedHeight = 63001 ∧
      (applyPrefetchedScanBlocksInner sampleCrates samplePeekEnv (Others.none _) injectedClaims
        provedState blocks).1.lastProvedHeight = 63000 := by
  refine ⟨?_, ?_, ?_, ?_⟩
  · refine ⟨[earlyFetch], fun m inputs hpokes haccepts => ?_⟩
    have hresult : (applyPrefetchedScanBlocksInner sampleCrates samplePeekEnv (Others.none _) none
        (fresh sampleEnv) [earlyFetch]).1 = seededState := by
      decide +kernel
    obtain rfl := not_acceptsAll_early hpokes haccepts
    rw [hresult]
    exact not_sameScan_seeded
  · refine ⟨earlySender, [doubledFetch], fun m inputs hpokes => ?_⟩
    have hresult : (applyPrefetchedScanBlocksInner sampleCrates samplePeekEnv earlySender none
        (fresh sampleEnv) [doubledFetch]).1 = seededState := by
      decide +kernel
    obtain rfl := eq_nil_of_unprepared (by decide) hpokes
    rw [hresult]
    exact not_sameScan_seeded
  · refine ⟨sender (buildProveRecursiveGenesisPoke sampleCrates), [doubledNext], by decide,
      fun m inputs hpokes => ?_⟩
    have hresult : (applyPrefetchedScanBlocksInner sampleCrates samplePeekEnv
        (sender (buildProveRecursiveGenesisPoke sampleCrates)) none unseededState
        [doubledNext]).1 = lateSeededState := by
      decide +kernel
    obtain rfl := eq_nil_of_unprepared (by decide) hpokes
    rw [hresult]
    exact not_sameScan_lateSeeded
  · refine ⟨some [[narrowClaim], []], linkedFetches, ?_, ?_⟩ <;> decide +kernel

/-! ## The follower of a server -/

section

omit [DecidableEq H]

theorem runState_concat (sent : List Noun) (input : Noun) :
    runState env.toEnv (sent ++ [input]) = nextState env.toEnv (runState env.toEnv sent) input :=
  final_append _ _ _ _

theorem tryRecursiveTransition_eq (sent : List Noun) (block : ScanBlockFetch)
    {claims : List ClaimCandidate} (hwide : claims.all hasWideIds = true) :
    tryRecursiveTransition c env (Others.none env.toEnv) idx (runState env.toEnv sent) block claims
      = (runState env.toEnv (tryY3RecursiveTransitionAfterBlock c env sent block claims),
        .ok ()) := by
  unfold tryRecursiveTransition tryY3RecursiveTransitionAfterBlock transitionPoke
  have htriple : prevTripleOf c env ((Others.none env.toEnv).act (.proof idx)
      (runState env.toEnv sent)) = prevTriple c env sent := rfl
  dsimp only
  rw [htriple]
  cases prevTriple c env sent with
  | none =>
    rw [Option.map_none, Option.toList_none, List.append_nil]
    rfl
  | some triple =>
    obtain ⟨proof, subj, form⟩ := triple
    dsimp only
    rw [if_pos hwide, Option.map_some, Option.toList_some, runState_concat]
    rfl

end

theorem applyFetchedBlock_eq (sent : List Noun) (block : ScanBlockFetch) :
    applyFetchedBlock c env (Others.none env.toEnv) none idx (runState env.toEnv sent) block
      = (runState env.toEnv (applyBlock c env sent block).1,
        (applyBlock c env sent block).2.mapError .message) := by
  unfold applyFetchedBlock applyBlock scanPoke scanClaims
  cases canonicalZSetTxOrder c block.pageTxIds with
  | error e => rfl
  | ok ids =>
    cases hclaims : extractClaims c block.txDetails with
    | error e => rfl
    | ok claims =>
      dsimp only [Except.mapError, bind, Except.bind, pure, Except.pure]
      generalize buildScanBlockPoke c block.parent block.height block.pageDigest ids claims = input
      have hstart : (Others.none env.toEnv).act (.scan idx) (runState env.toEnv sent)
          = runState env.toEnv sent := rfl
      rw [hstart, ← runState_concat]
      unfold sendPoke
      cases poke env.toEnv (runState env.toEnv sent) input with
      | error e => rfl
      | ok r =>
        obtain ⟨effects, t⟩ := r
        dsimp only [Except.toOption, Option.map_some]
        cases scanBlockResult c (effects.map Effect.noun) with
        | error e => rfl
        | ok done =>
          dsimp only
          rw [tryRecursiveTransition_eq _ _ (hasWideIds_of_extractClaims hclaims)]

theorem applyFetchedBlocks_eq (sent : List Noun) (lastDone : Option ScanBlockDone)
    (blocks : List ScanBlockFetch) :
    applyFetchedBlocks c env (Others.none env.toEnv) none idx (runState env.toEnv sent) lastDone
        blocks
      = (runState env.toEnv (applyBlocks c env sent lastDone blocks).1,
        (applyBlocks c env sent lastDone blocks).2.mapError .message) := by
  induction blocks generalizing idx sent lastDone with
  | nil => rfl
  | cons block blocks ih =>
    rw [applyFetchedBlocks, applyBlocks, applyFetchedBlock_eq]
    obtain ⟨sent', result⟩ := applyBlock c env sent block
    cases result with
    | error e => rfl
    | ok done => exact ih sent' (some done)

/-- Without other tasks, a batch of extracted claims is one of the follower's run. -/
theorem applyPrefetchedScanBlocksInner_eq (sent : List Noun) (blocks : List ScanBlockFetch) :
    applyPrefetchedScanBlocksInner c env (Others.none env.toEnv) none (runState env.toEnv sent)
        blocks
      = (runState env.toEnv (applyPrefetchedScanBlocks c env sent blocks).1,
        (applyPrefetchedScanBlocks c env sent blocks).2.mapError .message) := by
  unfold applyPrefetchedScanBlocksInner applyPrefetchedScanBlocks
  by_cases hempty : blocks.isEmpty
  · rw [if_pos hempty, if_pos hempty]
    rfl
  · rw [if_neg hempty, if_neg hempty]
    have hst : scanStateOf c env (runState env.toEnv sent) = followerScanState c env sent := rfl
    rw [hst]
    cases followerScanState c env sent with
    | error e => rfl
    | ok st =>
      dsimp only
      cases validateScanBlockChain st.lastProvedHeight st.lastProvedDigest blocks with
      | error e => rfl
      | ok _ =>
        dsimp only
        rw [applyFetchedBlocks_eq]
        obtain ⟨sent', result⟩ := applyBlocks c env sent none blocks
        cases result with
        | error e => rfl
        | ok lastDone => cases lastDone <;> rfl

end NnsVerified.Hull
