import NnsVerified.Hull.BatchRun
import NnsVerified.Kernel.Proofs.AcceptanceProofs

/-!
# A kernel that others use too

While a batch of blocks is applied, other tasks send pokes to the kernel, and the follower sends
transitions. None of this moves the cursor. So a state that gets only the blocks follows the kernel
through the batch.
-/

namespace NnsVerified.Hull

open NnsVerified.Hoon NnsVerified.Library NnsVerified.Kernel

variable {Acc Vesl : Type} {env : PeekEnv Acc Vesl} {others : Others env.toEnv}
  {s t : State Acc Vesl}

/-! ## Reference states -/

/-- A reference state follows the kernel: blocks are accepted alike by both, and nothing else that
the follower and the others do takes the kernel away from it. -/
structure Tracks (others : Others env.toEnv) (P : State Acc Vesl → State Acc Vesl → Prop) :
    Prop where
  settled : ∀ {t s}, P t s → Settled env.toEnv t s
  gap : ∀ {t s} gap, P t s → P t (others.act gap s)
  transition : ∀ {t s} (p : ProveTransition), P t s → P t (nextState env.toEnv s p.noun)
  accept : ∀ {t s} {b : ScanBlock}, P t s → acceptedBlock env.toEnv s b.noun = some b →
    acceptedBlock env.toEnv t b.noun = some b ∧
      P (nextState env.toEnv t b.noun) (nextState env.toEnv s b.noun)
  reject : ∀ {t s} {b : ScanBlock}, P t s → acceptedBlock env.toEnv s b.noun = none →
    acceptedBlock env.toEnv t b.noun = none ∧ Settled env.toEnv t (nextState env.toEnv s b.noun)

/-- While the others keep the accumulator too, a kernel is followed by a state with its cursor and
its accumulator. -/
theorem tracks_quiet (hquiet : ∀ gap s, SameScan s (others.act gap s)) :
    Tracks others SameScan where
  settled h := h.settled
  gap gap h := h.trans (hquiet gap _)
  transition p h := h.trans (sameScan_transition _ p)
  accept h hacc := by
    have hacc' := (h.acceptedBlock_eq _).symm.trans hacc
    exact ⟨hacc', .of_accepts (nextState_of_accepted hacc) (nextState_of_accepted hacc') h.height
      h.digest h.seed⟩
  reject h hnone := ⟨(h.acceptedBlock_eq _).symm.trans hnone, h.reject hnone⟩

/-! ## Reachable kernels -/

/-- Two runs accepted the same blocks, and the second one has seeded its accumulator at most. -/
structure SameBlocks (env : Env Acc Vesl) (t s : State Acc Vesl) : Prop where
  runs : ∃ bs, RunInv env bs t ∧ RunInv env bs s
  settled : Settled env t s

section

variable (hh : env.HashLaws) (hm : env.MapLaws)

include hh hm

/-- A poke by which no block is accepted keeps both. -/
theorem SameBlocks.reject {input : Noun} (h : SameBlocks env.toEnv t s)
    (hnone : acceptedBlock env.toEnv s input = none) :
    SameBlocks env.toEnv t (nextState env.toEnv s input) := by
  obtain ⟨bs, ht, hs⟩ := h.runs
  have hs' : RunInv env.toEnv bs (nextState env.toEnv s input) := by
    have hstep := hs.step hh hm input
    rw [show (step env.toEnv s input).2 = none from hnone, Option.toList_none,
      List.append_nil] at hstep
    exact hstep
  obtain ⟨hheight, hdigest, hacc⟩ := nextState_of_rejected hnone
  refine ⟨⟨bs, ht, hs'⟩, hheight.trans h.settled.height, hdigest.trans h.settled.digest, ?_⟩
  by_cases hbs : bs = []
  · have hboot := ht.boot_iff.mpr hbs
    rcases h.settled.accumulator with hsame | ⟨-, hseeded⟩
    · rcases hacc with hacc | hens
      · exact Or.inl (hacc.trans hsame)
      · exact Or.inr ⟨hboot, hsame ▸ hens⟩
    · -- the accumulator is seeded already, so seeding it again changes nothing
      rcases hacc with hacc | hens
      · exact Or.inr ⟨hboot, by rw [hacc]; exact hseeded⟩
      · have hidem := ensureGenesisTld_idem hh hm ht.inserted hseeded
        rw [hens] at hidem
        exact Or.inr ⟨hboot, by rw [Except.ok.inj hidem]; exact hseeded⟩
  · exact Or.inl (hs'.determined hbs ht).1

theorem SameBlocks.quiet {inputs : List Noun} (h : SameBlocks env.toEnv t s)
    (hkeep : KeepsCursor env.toEnv s inputs) :
    SameBlocks env.toEnv t (final (step env.toEnv) s inputs) := by
  induction inputs generalizing s with
  | nil => exact h
  | cons input inputs ih =>
    obtain ⟨hheight, hdigest, hrest⟩ := hkeep
    refine ih (h.reject hh hm ?_) hrest
    -- an accepted block has a height of its own
    cases hacc : acceptedBlock env.toEnv s input with
    | none => rfl
    | some b =>
      have haccepts := nextState_of_accepted hacc
      have hlt : s.lastProvedHeight < s.wantHeight := by
        unfold State.wantHeight
        split
        · exact Nat.lt_of_lt_of_le (Nat.lt_succ_self _) (Nat.le_max_left _ _)
        · exact Nat.lt_succ_self _
      have heq : s.lastProvedHeight = s.wantHeight :=
        hheight.symm.trans (haccepts.nextHeight.trans haccepts.height)
      omega

theorem SameBlocks.seed (h : SameBlocks env.toEnv t s) :
    seedAccumulator env.toEnv s = seedAccumulator env.toEnv t := by
  obtain ⟨bs, ht, hs⟩ := h.runs
  obtain ⟨acc, hacc⟩ : ∃ acc, seedAccumulator env.toEnv s = .ok acc := by
    unfold seedAccumulator
    split
    · obtain ⟨acc, hens, -⟩ := ensureGenesisTld_spec hh hm hs.inserted
      exact ⟨acc, hens⟩
    · exact ⟨_, rfl⟩
  obtain ⟨acc', hacc'⟩ : ∃ acc, seedAccumulator env.toEnv t = .ok acc := by
    unfold seedAccumulator
    split
    · obtain ⟨acc, hens, -⟩ := ensureGenesisTld_spec hh hm ht.inserted
      exact ⟨acc, hens⟩
    · exact ⟨_, rfl⟩
  have hscan := (hs.seedAccumulator hh hm hacc).1
  have hscan' := (ht.seedAccumulator hh hm hacc').1
  rw [hacc, hacc', Except.ok.inj (hscan.symm.trans hscan')]

theorem SameBlocks.acceptedBlock_eq (h : SameBlocks env.toEnv t s) (b : ScanBlock) :
    acceptedBlock env.toEnv s b.noun = acceptedBlock env.toEnv t b.noun :=
  acceptedBlock_congr h.settled.height h.settled.digest (h.seed hh hm) b

/-- Whatever the others send, a reachable kernel is followed by one that had the same blocks. -/
theorem tracks_runs : Tracks others (SameBlocks env.toEnv) where
  settled h := h.settled
  gap gap h := h.quiet hh hm (others.keep gap _)
  transition p h := by
    refine h.reject hh hm ?_
    unfold acceptedBlock
    rw [softCause_proveTransition]
  accept {t s b} h hacc := by
    have hacc' := (h.acceptedBlock_eq hh hm b).symm.trans hacc
    have hs := nextState_of_accepted hacc
    have ht := nextState_of_accepted hacc'
    have hsame := SameScan.of_accepts hs ht h.settled.height h.settled.digest (h.seed hh hm)
    obtain ⟨bs, hrunT, hrunS⟩ := h.runs
    exact ⟨hacc', ⟨_, hrunT.accept hh hm ht, hrunS.accept hh hm hs⟩, hsame.settled⟩
  reject {t s b} h hnone :=
    ⟨(h.acceptedBlock_eq hh hm b).symm.trans hnone, (h.reject hh hm hnone).settled⟩

end

end NnsVerified.Hull
