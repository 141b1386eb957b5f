import NnsVerified.Hull.Proofs.ConvergenceProofs

/-!
# Restarts

A server that is stopped at any time and comes back from any of its checkpoints goes on with the
chain where the checkpoint stands: no block is lost or applied twice, and what it has answered at one
time it answers at every other time at which its cursor is not lower.
-/

namespace NnsVerified.Hull

open NnsVerified.Hoon NnsVerified.Library NnsVerified.Kernel

variable {H Z L Acc Vesl : Type} [DecidableEq H] {c : Crates H Z L} {env : PeekEnv Acc Vesl}
  {chain : LinkedChain c} {k k' : Nat} {sent sent' : List Noun}

theorem runBlocks_take (env : Env Acc Vesl) (sent : List Noun) (n : Nat) :
    runBlocks env (sent.take n) <+: runBlocks env sent := by
  conv_rhs => rw [← List.take_append_drop n sent]
  unfold runBlocks
  rw [history_append]
  exact List.prefix_append _ _

/-- A checkpoint of a kernel that has scanned the chain to a height has scanned it to a height that is
not above. -/
theorem ScannedTo.take (h : ScannedTo chain env.toEnv k sent) (n : Nat) :
    ∃ k' ≤ k, ScannedTo chain env.toEnv k' (sent.take n) := by
  have hpre := runBlocks_take env.toEnv sent n
  rw [h.log] at hpre
  have hlength : (runBlocks env.toEnv (sent.take n)).length ≤ k := by
    simpa using hpre.length_le
  refine ⟨_, hlength, ?_, ?_⟩
  · have hlog := chain.log_prefix hlength
    exact (List.prefix_of_prefix_length_le hpre hlog (by simp)).eq_of_length (by simp)
  · have hle := h.le
    omega

section

variable (hh : env.HashLaws) (hm : env.MapLaws)

include hh hm

theorem ScannedTo.events (hn : c.NounLaws) (h : ScannedTo chain env.toEnv k sent)
    {events : List ServerEvent} (hevents : ∀ t, .pass t ∈ events → t.Honest chain) :
    ∃ k', ScannedTo chain env.toEnv k' (events.foldl (ServerEvent.sent c env) sent) := by
  induction events generalizing k sent with
  | nil => exact ⟨k, h⟩
  | cons event events ih =>
    have hrest : ∀ t, .pass t ∈ events → t.Honest chain :=
      fun t ht => hevents t (List.mem_cons_of_mem _ ht)
    cases event with
    | pass tick =>
      obtain ⟨k₁, -, hscanned, -⟩ := h.scanOnce hh hm hn (hevents tick List.mem_cons_self)
      exact ih hscanned hrest
    | restart kept =>
      obtain ⟨k₁, -, hscanned⟩ := h.take kept
      exact ih hscanned hrest

/-- A kernel that is not behind answers with the rows of the other one. -/
theorem ScannedTo.keeps (h : ScannedTo chain env.toEnv k sent)
    (h' : ScannedTo chain env.toEnv k' sent')
    (hle : (runState env.toEnv sent).lastProvedHeight ≤ (runState env.toEnv sent').lastProvedHeight)
    (hstarted : 0 < (runState env.toEnv sent).lastProvedHeight) {name : Nat}
    {e : NnsAccumulatorEntry}
    (hget : get env.toEnv (runState env.toEnv sent).accumulator name = .ok (some e)) :
    get env.toEnv (runState env.toEnv sent').accumulator name = .ok (some e) := by
  have hinv := h.runInv hh hm
  have hinv' := h'.runInv hh hm
  rw [hinv.height, hinv'.height] at hle
  have hkk : k ≤ k' := by simpa using cursorHeight_le hle
  have hne : chain.log k ≠ [] := by
    intro hnil
    rw [hinv.height, hnil] at hstarted
    exact absurd hstarted (by decide)
  have hpre := chain.log_prefix hkk
  rw [get_eq hh hm (hinv.inserted.built hh hm)] at hget
  have hview := scanAll_view_prefix hh hm hpre (hinv.scanned hne).1
    (hinv'.scanned (hpre.ne_nil hne)).1 (keyOf_based hh name) (Except.ok.inj hget)
  rw [get_eq hh hm (hinv'.inserted.built hh hm), hview]

end

/-- In every run with restarts, the log of a server is the chain from the genesis height to its cursor
at every time; of two times after the first block the one with the cursor that is not lower answers
whatever the other one does, with the same row; and the passes after the last restart catch up. -/
theorem restarts_keep_chain (hn : c.NounLaws) (hh : env.HashLaws) (hm : env.MapLaws)
    (hprover : ProverEnds env.toEnv) (hfuel : traceBudget ≤ env.fuel) (chain : LinkedChain c)
    (events : List ServerEvent) (hevents : ∀ t, .pass t ∈ events → t.Honest chain)
    (passes : List Tick) (hpasses : ∀ t ∈ passes, t.Honest chain) (tip batch : Nat)
    (hreaches : ∀ t ∈ passes, t.Reaches tip batch) :
    (∀ pre, pre <+: events → (∃ k, runBlocks env.toEnv (servedPokes c env pre) = chain.log k) ∧
      ∀ other, other <+: events →
        (runState env.toEnv (servedPokes c env pre)).lastProvedHeight
          ≤ (runState env.toEnv (servedPokes c env other)).lastProvedHeight →
        0 < (runState env.toEnv (servedPokes c env pre)).lastProvedHeight → ∀ name e,
        get env.toEnv (runState env.toEnv (servedPokes c env pre)).accumulator name
          = .ok (some e) →
        get env.toEnv (runState env.toEnv (servedPokes c env other)).accumulator name
          = .ok (some e)) ∧
    ∃ k k', runBlocks env.toEnv (servedPokes c env events) = chain.log k ∧
      runBlocks env.toEnv (servedPokes c env (events ++ passes.map .pass)) = chain.log k' ∧
      min (k + batch * passes.length) (finalBlocks tip) ≤ k' := by
  have hscanned : ∀ pre, pre <+: events →
      ∃ k, ScannedTo chain env.toEnv k (servedPokes c env pre) := fun pre hpre =>
    (ScannedTo.start chain env.toEnv).events hh hm hn fun t ht => hevents t (hpre.subset ht)
  constructor
  · intro pre hpre
    obtain ⟨k, hk⟩ := hscanned pre hpre
    refine ⟨⟨k, hk.log⟩, fun other hother hle hstarted name e hget => ?_⟩
    obtain ⟨k', hk'⟩ := hscanned other hother
    exact hk.keeps hh hm hk' hle hstarted hget
  · obtain ⟨k, hk⟩ := hscanned events (List.prefix_refl _)
    obtain ⟨k', -, hk', hprogress⟩ := hk.passes hh hm hn hpasses
    have hpokes : servedPokes c env (events ++ passes.map .pass) = passes.foldl
        (fun sent tick => (Hull.scanOnce c env sent tick).1) (servedPokes c env events) := by
      unfold servedPokes
      rw [List.foldl_append, List.foldl_map]
      rfl
    rw [hpokes]
    exact ⟨k, k', hk.log, hk'.log, hprogress hprover hfuel tip batch hreaches⟩

/-- A server that is stopped after its first pass and comes back from a checkpoint of the poke of the
genesis proof alone: two passes bring it to the last final block. -/
theorem restarts_keep_chain_sample :
    (∃ k, runBlocks sampleEnv (servedPokes sampleCrates samplePeekEnv
      [.pass (servedTick sampleServed 63010)]) = sampleChain.log k) ∧
    ∃ k', 3 ≤ k' ∧ runBlocks sampleEnv (servedPokes sampleCrates samplePeekEnv
      [.pass (servedTick sampleServed 63010), .restart 1, .pass (servedTick sampleServed 63012),
        .pass (servedTick sampleServed 63012)]) = sampleChain.log k' := by
  have hreaches : (servedTick sampleServed 63012).Reaches 63012 2 :=
    ⟨⟨_, rfl, le_rfl⟩, le_rfl, fun _ _ _ _ _ => ⟨_, rfl⟩⟩
  have hevents : ∀ t, ServerEvent.pass t ∈ [.pass (servedTick sampleServed 63010), .restart 1] →
      t.Honest sampleChain := by
    intro t ht
    simp only [List.mem_cons, List.not_mem_nil, or_false, ServerEvent.pass.injEq, reduceCtorEq] at ht
    rw [ht]
    exact honest_servedTick (by decide)
  have hpasses : ∀ t ∈ [servedTick sampleServed 63012, servedTick sampleServed 63012],
      t = servedTick sampleServed 63012 := by simp
  obtain ⟨hmoments, k, k', -, hlog, hle⟩ := @restarts_keep_chain _ _ _ _ _ _ sampleCrates
    samplePeekEnv sampleCrates_nounLaws sampleEnv_hashLaws sampleEnv_mapLaws
    (fun _ _ _ _ h => by cases h) (by decide) sampleChain
    [.pass (servedTick sampleServed 63010), .restart 1] hevents
    [servedTick sampleServed 63012, servedTick sampleServed 63012]
    (fun t ht => hpasses t ht ▸ honest_servedTick (by decide)) 63012 2
    (fun t ht => hpasses t ht ▸ hreaches)
  refine ⟨(hmoments _ (List.prefix_append _ _)).1, k', ?_, hlog⟩
  have hfinal : finalBlocks 63012 = 3 := rfl
  rw [hfinal] at hle
  simp only [List.length_cons, List.length_nil] at hle
  omega

end NnsVerified.Hull
