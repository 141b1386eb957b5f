import NnsVerified.Kernel.Proofs.CursorProofs

/-!
# What the acceptance of a block depends on

The cursor and the accumulator decide whether a block is accepted, and what they are after it. So a
state that agrees with another one on both follows it through every block, whatever its proofs are.
-/

namespace NnsVerified.Kernel

open NnsVerified.Hoon NnsVerified.Library

variable {Acc Vesl : Type} {env : Env Acc Vesl} {s s' t t' : State Acc Vesl} {b : ScanBlock}

/-! ## Acceptance -/

theorem acceptedBlock_iff : acceptedBlock env s b.noun = some b ↔ ∃ t, Accepts env s b t := by
  refine ⟨fun h => ⟨_, nextState_of_accepted h⟩, ?_⟩
  rintro ⟨t, h⟩
  obtain ⟨seeded, hseed, hscan⟩ := h.scan
  obtain ⟨root, hroot⟩ := h.root
  exact acceptedBlock_of_done ((poke_scanBlock env s b).trans
    (scanBlock_accepted h.link h.height hseed hscan hroot))

/-- States with one cursor that fold a block into the same accumulator accept it alike. -/
theorem Accepts.transfer (h : Accepts env s b t) (hheight : s'.lastProvedHeight = s.lastProvedHeight)
    (hdigest : s'.lastProvedDigest = s.lastProvedDigest)
    (hseed : seedAccumulator env s' = seedAccumulator env s) : Accepts env s' b t := by
  have hboot : s'.boot = s.boot := by
    unfold State.boot
    rw [hheight, hdigest]
  have hwant : s'.wantHeight = s.wantHeight := by
    unfold State.wantHeight
    rw [hboot, hheight]
  exact {
    link := by rw [hboot, hdigest]; exact h.link
    height := by rw [hwant]; exact h.height
    scan := by rw [hseed]; exact h.scan
    root := h.root
    nextHeight := h.nextHeight
    nextDigest := h.nextDigest }

/-- Such states accept the same blocks. -/
theorem acceptedBlock_congr (hheight : s.lastProvedHeight = t.lastProvedHeight)
    (hdigest : s.lastProvedDigest = t.lastProvedDigest)
    (hseed : seedAccumulator env s = seedAccumulator env t) (b : ScanBlock) :
    acceptedBlock env s b.noun = acceptedBlock env t b.noun := by
  refine Option.ext fun b' => ⟨fun hacc => ?_, fun hacc => ?_⟩
  · obtain rfl := acceptedBlock_noun hacc
    obtain ⟨u, hu⟩ := acceptedBlock_iff.mp hacc
    exact acceptedBlock_iff.mpr ⟨u, hu.transfer hheight.symm hdigest.symm hseed.symm⟩
  · obtain rfl := acceptedBlock_noun hacc
    obtain ⟨u, hu⟩ := acceptedBlock_iff.mp hacc
    exact acceptedBlock_iff.mpr ⟨u, hu.transfer hheight hdigest hseed⟩

/-- An accepted block ends the boot. -/
theorem Accepts.boot_eq_false (h : Accepts env s b t) : t.boot = false := by
  have hpos : 0 < s.wantHeight := by
    unfold State.wantHeight
    split
    · exact Nat.lt_of_lt_of_le (Nat.succ_pos _) (Nat.le_max_left _ _)
    · exact Nat.succ_pos _
  have hheight : t.lastProvedHeight = s.wantHeight := h.nextHeight.trans h.height
  unfold State.boot
  rw [Bool.and_eq_false_iff]
  exact Or.inl (decide_eq_false (by omega))

/-- A block is folded into one accumulator. -/
theorem Accepts.accumulator_unique (h : Accepts env s b t) (h' : Accepts env s b t') :
    t.accumulator = t'.accumulator := by
  obtain ⟨seeded, hseed, hscan⟩ := h.scan
  obtain ⟨seeded', hseed', hscan'⟩ := h'.scan
  obtain rfl := Except.ok.inj (hseed.symm.trans hseed')
  exact Except.ok.inj (hscan.symm.trans hscan')

/-! ## Agreement -/

/-- Two states have the same cursor and the same accumulator. -/
structure SameScan (t s : State Acc Vesl) : Prop where
  height : s.lastProvedHeight = t.lastProvedHeight
  digest : s.lastProvedDigest = t.lastProvedDigest
  accumulator : s.accumulator = t.accumulator

theorem SameScan.symm (h : SameScan t s) : SameScan s t :=
  ⟨h.height.symm, h.digest.symm, h.accumulator.symm⟩

theorem SameScan.trans (h : SameScan s t) (h' : SameScan t s') : SameScan s s' :=
  ⟨h'.height.trans h.height, h'.digest.trans h.digest, h'.accumulator.trans h.accumulator⟩

theorem SameScan.boot (h : SameScan t s) : s.boot = t.boot := by
  unfold State.boot
  rw [h.height, h.digest]

theorem SameScan.seed (h : SameScan t s) : seedAccumulator env s = seedAccumulator env t := by
  unfold seedAccumulator
  rw [h.boot, h.accumulator]

theorem SameScan.acceptedBlock_eq (h : SameScan t s) (b : ScanBlock) :
    acceptedBlock env s b.noun = acceptedBlock env t b.noun :=
  acceptedBlock_congr h.height h.digest h.seed b

/-- The states after an accepted block agree where those before it fold the block alike. -/
theorem SameScan.of_accepts (hs : Accepts env s b s') (ht : Accepts env t b t')
    (hheight : s.lastProvedHeight = t.lastProvedHeight)
    (hdigest : s.lastProvedDigest = t.lastProvedDigest)
    (hseed : seedAccumulator env s = seedAccumulator env t) : SameScan t' s' where
  height := hs.nextHeight.trans ht.nextHeight.symm
  digest := hs.nextDigest.trans ht.nextDigest.symm
  accumulator := hs.accumulator_unique (ht.transfer hheight hdigest hseed)

/-- A state agrees with another one, or has the reserved row beside its accumulator, and neither has
a cursor. -/
structure Settled (env : Env Acc Vesl) (t s : State Acc Vesl) : Prop where
  height : s.lastProvedHeight = t.lastProvedHeight
  digest : s.lastProvedDigest = t.lastProvedDigest
  accumulator : s.accumulator = t.accumulator ∨
    t.boot = true ∧ ensureGenesisTld env t.accumulator = .ok s.accumulator

theorem SameScan.settled (h : SameScan t s) : Settled env t s :=
  ⟨h.height, h.digest, Or.inl h.accumulator⟩

theorem Settled.same (h : Settled env t s) (hboot : t.boot = false) : SameScan t s := by
  refine ⟨h.height, h.digest, ?_⟩
  rcases h.accumulator with hacc | ⟨hb, -⟩
  · exact hacc
  · rw [hboot] at hb
    cases hb

/-- A block that is not accepted leaves the reserved row at most. -/
theorem SameScan.reject (h : SameScan t s) (hnone : acceptedBlock env s b.noun = none) :
    Settled env t (nextState env s b.noun) := by
  obtain ⟨hheight, hdigest, -⟩ := nextState_of_rejected hnone
  refine ⟨hheight.trans h.height, hdigest.trans h.digest, ?_⟩
  unfold nextState
  rw [poke_scanBlock]
  cases hpoke : scanBlock env s b with
  | error e => exact Or.inl h.accumulator
  | ok r =>
    obtain ⟨effects, u⟩ := r
    rcases scanBlock_cases hpoke with ⟨e, acc, -, rfl, rfl | hseed⟩ |
      ⟨seeded, acc, root, hlink, hwant, hseed, hscan, hroot, -, rfl⟩
    · exact Or.inl h.accumulator
    · rw [h.seed] at hseed
      unfold seedAccumulator at hseed
      split at hseed
      · rename_i hboot
        exact Or.inr ⟨hboot, hseed⟩
      · exact Or.inl (Except.ok.inj hseed).symm
    · have hsome : acceptedBlock env s b.noun = some b :=
        acceptedBlock_iff.mpr ⟨{ s with
          accumulator := acc
          lastProvedHeight := b.height
          lastProvedDigest := b.pageDigest }, hlink, hwant, ⟨seeded, hseed, hscan⟩, ⟨root, hroot⟩,
          rfl, rfl⟩
      rw [hnone] at hsome
      cases hsome

/-- The poke of a transition leaves the cursor and the accumulator. -/
theorem sameScan_transition (s : State Acc Vesl) (p : ProveTransition) :
    SameScan s (nextState env s p.noun) := by
  refine nextState_rule (P := SameScan s) ⟨rfl, rfl, rfl⟩ fun effects t hpoke => ?_
  have hstep := poke_step hpoke
  rw [softCause_proveTransition] at hstep
  generalize hcause : some (Cause.proveRecursiveTransition p) = cause at hstep
  cases hstep with
  | same hdone => exact ⟨rfl, rfl, rfl⟩
  | proved lp rp hok => exact ⟨rfl, rfl, rfl⟩
  | graft tag body efx vesl => cases hcause
  | genesisFailed dryOk trace hseed => cases hcause
  | genesisProved dryOk proof lp rp hseed => cases hcause
  | scanRejected c e hseed => cases hcause
  | scanAccepted hlink hheight hseed hscan hroot => cases hcause

end NnsVerified.Kernel
