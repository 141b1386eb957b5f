import NnsVerified.Hull.ChainFollower
import NnsVerified.Hull.Proofs.DigestProofs
import NnsVerified.Hull.Proofs.EncodingProofs
import NnsVerified.Hull.Sample
import NnsVerified.Kernel.Proofs.LivenessProofs

/-!
# Planning and pre-validation against the kernel

The hull plans the heights that the kernel wants next, and its check of a batch of blocks accepts
exactly the batches whose blocks the kernel accepts one after the other.
-/

namespace NnsVerified.Hull

open NnsVerified.Hoon NnsVerified.Library NnsVerified.Kernel

variable {H Z L Acc Vesl : Type} {c : Crates H Z L} {env : Env Acc Vesl} {s : State Acc Vesl}
  {bs : List ScanBlock} {st : ScanState}

/-! ## The cursor -/

/-- At height zero, the cursor of a reachable kernel has digest zero. -/
theorem digest_of_height_zero (h : RunInv env bs s) (hzero : s.lastProvedHeight = 0) :
    s.lastProvedDigest = 0 := by
  have hbs : bs = [] := by
    by_contra hne
    have hheight := h.height
    rw [hzero, cursorHeight, if_neg hne, Kernel.nnsGenesisHeight] at hheight
    omega
  rw [h.digest, hbs]
  rfl

/-- Boot detection coincides with that of the kernel. -/
theorem scanCursorIsGenesisBoot_eq (h : RunInv env bs s) (hst : Mirrors st s) :
    scanCursorIsGenesisBoot st.lastProvedHeight st.lastProvedDigest = s.boot := by
  by_cases hzero : s.lastProvedHeight = 0
  · have hdigest := digest_of_height_zero h hzero
    have hboot : s.boot = true := by
      unfold State.boot
      simp [hzero, hdigest]
    rw [hboot]
    refine (scanCursorIsGenesisBoot_iff ?_).mpr ⟨hst.height.trans hzero, hst.digest.trans hdigest⟩
    rw [hst.digest, hdigest]
    positivity
  · have hheight : ¬st.lastProvedHeight = 0 := by
      rw [← UInt64.toNat_inj, hst.height]
      exact hzero
    unfold scanCursorIsGenesisBoot State.boot
    simp [hzero, hheight]

/-! ## The plan -/

/-- The hull starts at the height that the kernel wants, up to saturation. -/
theorem toNat_nextHeight (h : RunInv env bs s) (hst : Mirrors st s) :
    (nextHeight st).toNat = min s.wantHeight (2 ^ 64 - 1) := by
  unfold nextHeight State.wantHeight
  rw [scanCursorIsGenesisBoot_eq h hst]
  by_cases hboot : s.boot = true
  · have hzero : s.lastProvedHeight = 0 := by
      unfold State.boot at hboot
      simp at hboot
      exact hboot.1
    have hfirst : scanFirst.toNat = 63000 := by decide
    rw [if_pos hboot, if_pos hboot, toNat_max, toNat_saturatingAdd, hst.height, hzero, hfirst]
    decide
  · rw [if_neg hboot, if_neg hboot, toNat_saturatingAdd, hst.height]
    rfl

/-- The plan: the heights from the one that the kernel wants, as many as a batch may have and as
are final. -/
theorem planHeights_eq (h : RunInv env bs s) (hst : Mirrors st s) (tip batchMax : UInt64)
    (hbatch : 1 ≤ batchMax) :
    planHeights st tip batchMax =
      if s.wantHeight + 10 ≤ tip.toNat then
        some ((List.range (min batchMax.toNat (tip.toNat - 10 - s.wantHeight + 1))).map
          fun i => UInt64.ofNat (s.wantHeight + i))
      else none := by
  have hnext := toNat_nextHeight h hst
  have htip := tip.toNat_lt
  have hdepth : defaultFinalityDepth.toNat = 10 := rfl
  have hbatch' : 1 ≤ batchMax.toNat := UInt64.le_iff_toNat_le.mp hbatch
  have hpos : 1 ≤ s.wantHeight := by
    rw [h.wantHeight_eq, Kernel.nnsGenesisHeight]
    omega
  have hfinal : (saturatingSub tip defaultFinalityDepth).toNat = tip.toNat - 10 :=
    toNat_saturatingSub _ _
  unfold planHeights
  simp only [gt_iff_lt, UInt64.le_iff_toNat_le, UInt64.lt_iff_toNat_lt, hdepth, hfinal, hnext]
  by_cases hfin : s.wantHeight + 10 ≤ tip.toNat
  · have hend : (min (saturatingAdd (nextHeight st) (saturatingSub batchMax 1))
        (saturatingSub tip defaultFinalityDepth)).toNat
        = min (s.wantHeight + (batchMax.toNat - 1)) (tip.toNat - 10) := by
      rw [toNat_min, toNat_saturatingAdd, toNat_saturatingSub, hnext, hfinal]
      show min (min (min s.wantHeight (2 ^ 64 - 1) + (batchMax.toNat - 1)) (2 ^ 64 - 1))
        (tip.toNat - 10) = _
      omega
    have hwant : min s.wantHeight (2 ^ 64 - 1) = s.wantHeight := by omega
    have hdeep : ¬tip.toNat ≤ 10 := by omega
    have hbehind : ¬tip.toNat - 10 < min s.wantHeight (2 ^ 64 - 1) := by omega
    rw [if_neg hdeep, if_neg hbehind, if_pos hfin]
    unfold inclusiveRange
    rw [hend, hnext, hwant]
    congr 3
    omega
  · by_cases htip10 : tip.toNat ≤ 10
    · rw [if_pos htip10, if_neg hfin]
    · have hahead : tip.toNat - 10 < min s.wantHeight (2 ^ 64 - 1) := by omega
      rw [if_neg htip10, if_pos hahead, if_neg hfin]

/-! ## The check of a batch -/

/-- A fetched block, with the ids and the claims that its poke carries. -/
structure Offer where
  fetch : ScanBlockFetch
  pageTxIds : List (List UInt8)
  claims : List ClaimCandidate

/-- The poke of an offered block. -/
def Offer.poke (c : Crates H Z L) (o : Offer) : Noun :=
  buildScanBlockPoke c o.fetch.parent o.fetch.height o.fetch.pageDigest o.pageTxIds o.claims

/-- The block that the kernel reads off the poke. -/
def Offer.block (o : Offer) : ScanBlock :=
  toScanBlock o.fetch.parent o.fetch.height o.fetch.pageDigest o.pageTxIds o.claims

/-- The digests of an offered block are at most 40 bytes long. -/
def Offer.Narrow (o : Offer) : Prop := o.fetch.parent.length ≤ 40 ∧ o.fetch.pageDigest.length ≤ 40

instance (o : Offer) : Decidable o.Narrow := instDecidableAnd

/-- The kernel accepts the block of every poke of a list. -/
def AcceptsAll (env : Env Acc Vesl) : State Acc Vesl → List Noun → Prop
  | _, [] => True
  | s, input :: inputs =>
    (acceptedBlock env s input).isSome ∧ AcceptsAll env (nextState env s input) inputs

/-- Heights one after the other from `n` on. -/
def Consecutive (n : Nat) (offers : List Offer) : Prop :=
  ∀ (i : Nat) (h : i < offers.length), offers[i].fetch.height.toNat = n + i

instance (n : Nat) (offers : List Offer) : Decidable (Consecutive n offers) :=
  inferInstanceAs (Decidable (∀ (i : Nat) (h : i < offers.length),
    offers[i].fetch.height.toNat = n + i))

theorem Consecutive.tail {n : Nat} {o : Offer} {offers : List Offer}
    (h : Consecutive n (o :: offers)) : Consecutive (n + 1) offers := by
  intro i hi
  have hnext := h (i + 1) (by simpa using hi)
  rw [List.getElem_cons_succ] at hnext
  omega

section

variable (hh : env.HashLaws) (hm : env.MapLaws)

include hh hm

/-- The kernel accepts a block at the height that it wants exactly when the block is linked. -/
theorem acceptedBlock_iff_linked (h : RunInv env bs s) {b : ScanBlock}
    (hheight : b.height = s.wantHeight) (hbelt : b.height < goldilocks) :
    (acceptedBlock env s b.noun).isSome ↔ s.boot = true ∨ b.parent = s.lastProvedDigest := by
  constructor
  · intro hsome
    obtain ⟨b', hacc⟩ := Option.isSome_iff_exists.mp hsome
    have hlink := (nextState_of_accepted hacc).link
    rwa [acceptedBlock_noun hacc] at hlink
  · intro hlink
    obtain ⟨root, t, hok⟩ := h.scanBlock_ok hh hm hlink hheight hbelt
    have hpoke : poke env s b.noun = .ok ([.scanBlockDone b.height b.pageDigest root], t) := by
      rw [poke_scanBlock]
      exact hok
    rw [acceptedBlock_of_done hpoke]
    rfl

/-- The loop of the check runs with the kernel: it is at the first block of a fresh kernel, or it
expects the digest of the cursor. -/
theorem validate_loop_iff (hn : c.NounLaws) (h : RunInv env bs s) (genesisBoot : Bool) (i : Nat)
    (exp : List UInt8) (hboot : (genesisBoot && i = 0) = s.boot)
    (hexp : s.boot = false → leValue exp = s.lastProvedDigest ∧ s.lastProvedDigest < 256 ^ 40)
    (offers : List Offer) (hheights : Consecutive s.wantHeight offers)
    (hnarrow : ∀ o ∈ offers, o.Narrow)
    (hbelt : ∀ o ∈ offers, o.fetch.height.toNat < goldilocks) :
    validateScanBlockChain.loop genesisBoot i exp (offers.map Offer.fetch) = .ok () ↔
      AcceptsAll env s (offers.map (Offer.poke c)) := by
  induction offers generalizing bs s i exp with
  | nil => simp [validateScanBlockChain.loop, AcceptsAll]
  | cons o offers ih =>
    obtain ⟨⟨hparent, hdigest⟩, hnarrow⟩ := List.forall_mem_cons.mp hnarrow
    obtain ⟨hbelt₀, hbelt⟩ := List.forall_mem_cons.mp hbelt
    have hpoke : o.poke c = o.block.noun := buildScanBlockPoke_eq hn _ _ _ _ _
    have hheight : o.block.height = s.wantHeight := hheights 0 (by simp)
    have hlinked := acceptedBlock_iff_linked hh hm h hheight hbelt₀
    have hcheck : (!s.boot && !tip5AtomSemanticEq o.fetch.parent exp) = true ↔
        ¬(s.boot = true ∨ o.block.parent = s.lastProvedDigest) := by
      cases hb : s.boot with
      | true => simp
      | false =>
        obtain ⟨hvalue, hlt⟩ := hexp hb
        have heq := tip5AtomSemanticEq_iff hparent (hvalue ▸ hlt)
        rw [hvalue] at heq
        show (true && !tip5AtomSemanticEq o.fetch.parent exp) = true ↔
          ¬(false = true ∨ leValue o.fetch.parent = s.lastProvedDigest)
        simp [← heq]
    rw [List.map_cons, List.map_cons, validateScanBlockChain.loop, AcceptsAll, hpoke, hboot]
    by_cases hlink : s.boot = true ∨ o.block.parent = s.lastProvedDigest
    · obtain ⟨b, hacc⟩ := Option.isSome_iff_exists.mp (hlinked.mpr hlink)
      have hb : b = o.block := acceptedBlock_noun hacc
      have haccepts := nextState_of_accepted hacc
      have hnext := h.accept hh hm haccepts
      have hwant : (nextState env s o.block.noun).wantHeight = s.wantHeight + 1 := by
        rw [hnext.wantHeight_eq, h.wantHeight_eq, List.length_append, List.length_singleton,
          Nat.add_assoc]
      have hnoboot : (nextState env s o.block.noun).boot = false := by
        rw [← Bool.not_eq_true, hnext.boot_iff]
        simp
      have hcursor : (nextState env s o.block.noun).lastProvedDigest
          = leValue o.fetch.pageDigest := by
        rw [haccepts.nextDigest, hb]
        rfl
      rw [if_neg (fun hc => hcheck.mp hc hlink), and_iff_right (hlinked.mpr hlink)]
      refine ih hnext (i + 1) o.fetch.pageDigest ?_ ?_ ?_ hnarrow hbelt
      · rw [hnoboot]
        simp
      · intro _
        rw [hcursor]
        exact ⟨rfl, leValue_lt hdigest⟩
      · rw [hwant]
        exact hheights.tail
    · rw [if_pos (hcheck.mpr hlink)]
      constructor
      · intro herr
        exact absurd herr (by simp)
      · intro hacc
        exact absurd (hlinked.mp hacc.1) hlink

end

/-- The check of a batch agrees with the kernel, on every reachable cursor whose digest is of one
kind and every batch whose heights are of another. -/
def CheckAgrees (c : Crates H Z L) (env : Env Acc Vesl) (digestOk heightOk : Nat → Prop) : Prop :=
  ∀ (inputs : List Noun) (st : ScanState), Mirrors st (runState env inputs) →
    digestOk (runState env inputs).lastProvedDigest →
    ∀ offers : List Offer, Consecutive (runState env inputs).wantHeight offers →
      (∀ o ∈ offers, o.Narrow) → (∀ o ∈ offers, heightOk o.fetch.height.toNat) →
      (validateScanBlockChain st.lastProvedHeight st.lastProvedDigest (offers.map Offer.fetch)
          = .ok () ↔ AcceptsAll env (runState env inputs) (offers.map (Offer.poke c)))

/-- The hull reads the cursor as the kernel has it, plans a batch of heights from the one that the
kernel takes next, none of them above the final one, and its check of a batch agrees with the kernel
for digests of forty bytes and heights below the prime of the field. -/
theorem plan_and_check_agree (hn : c.NounLaws) (hh : env.HashLaws) (hm : env.MapLaws) :
    (∀ (inputs : List Noun) (answer : Noun),
      scanStateAnswer env (runState env inputs) = .ok answer →
      (∀ st, decodeScanState c answer = .ok st → Mirrors st (runState env inputs)) ∧
      ((runState env inputs).lastProvedHeight < 2 ^ 64 →
        size env (runState env inputs).accumulator < 2 ^ 64 →
        ∃ st, decodeScanState c answer = .ok st)) ∧
    (∀ (inputs : List Noun) (st : ScanState), Mirrors st (runState env inputs) →
      scanCursorIsGenesisBoot st.lastProvedHeight st.lastProvedDigest
        = (runState env inputs).boot ∧
      ∀ tip batchMax : UInt64, 1 ≤ batchMax →
        (planHeights st tip batchMax = none ↔
          tip.toNat < (runState env inputs).wantHeight + 10) ∧
        ∀ heights, planHeights st tip batchMax = some heights →
          heights ≠ [] ∧ heights.length ≤ batchMax.toNat ∧
          ∀ (i : Nat) (h : i < heights.length),
            heights[i].toNat = (runState env inputs).wantHeight + i ∧
              heights[i].toNat + 10 ≤ tip.toNat) ∧
    CheckAgrees c env (fun digest => digest < 256 ^ 40) fun height => height < goldilocks := by
  refine ⟨fun inputs answer hanswer => decodeScanState_answer hn hanswer, ?_, ?_⟩
  · intro inputs st hst
    have hinv := runInv hh hm inputs
    refine ⟨scanCursorIsGenesisBoot_eq hinv hst, fun tip batchMax hbatch => ?_⟩
    have hplan := planHeights_eq hinv hst tip batchMax hbatch
    have hbatch' : 1 ≤ batchMax.toNat := UInt64.le_iff_toNat_le.mp hbatch
    have htip := tip.toNat_lt
    by_cases hfinal : (runState env inputs).wantHeight + 10 ≤ tip.toNat
    · rw [if_pos hfinal] at hplan
      rw [hplan]
      refine ⟨iff_of_false (by simp) (by omega), ?_⟩
      intro heights heq
      obtain rfl := Option.some.inj heq
      refine ⟨?_, ?_, ?_⟩
      · rw [← List.length_pos_iff, List.length_map, List.length_range]
        omega
      · rw [List.length_map, List.length_range]
        exact min_le_left _ _
      · intro i hi
        rw [List.length_map, List.length_range] at hi
        rw [List.getElem_map, List.getElem_range, UInt64.toNat_ofNat',
          Nat.mod_eq_of_lt (by omega)]
        omega
    · rw [if_neg hfinal] at hplan
      rw [hplan]
      exact ⟨iff_of_true rfl (by omega), fun heights heq => absurd heq (by simp)⟩
  · intro inputs st hst hdigest offers hheights hnarrow hbelt
    have hinv := runInv hh hm inputs
    refine validate_loop_iff hh hm hn hinv _ 0 st.lastProvedDigest ?_ ?_ offers hheights hnarrow
      hbelt
    · rw [scanCursorIsGenesisBoot_eq hinv hst]
      simp
    · intro _
      exact ⟨hst.digest, hdigest⟩

/-- The scan state of a cursor with the digest `7`, in three bytes. -/
def paddedState (height : UInt64) : ScanState := ⟨height, [7, 0, 0], [], 1⟩

/-- Two blocks after the genesis one, the second of which is not linked to the first. -/
def forkedOffers : List Offer :=
  [⟨⟨63001, [8], [7], [], []⟩, [], []⟩, ⟨⟨63002, [9], [7], [], []⟩, [], []⟩]

theorem plan_and_check_agree_fork :
    (∀ heights, planHeights (paddedState 63000) 63020 2 = some heights → heights.length ≤ 2) ∧
      ¬AcceptsAll sampleEnv (runState sampleEnv [(idleBlock 0).noun])
        (forkedOffers.map (Offer.poke sampleCrates)) := by
  have hagree := plan_and_check_agree sampleCrates_nounLaws sampleEnv_hashLaws sampleEnv_mapLaws
  have hstate : runState sampleEnv [(idleBlock 0).noun] = idleState 0 := runState_idle 0
  have hst : Mirrors (paddedState 63000) (runState sampleEnv [(idleBlock 0).noun]) := by
    rw [hstate]
    exact ⟨rfl, by decide⟩
  constructor
  · intro heights hplan
    exact (((hagree.2.1 _ _ hst).2 63020 2 (by decide)).2 heights hplan).2.1
  · intro haccepts
    have hcheck := (hagree.2.2 _ _ hst (by rw [hstate]; decide) forkedOffers
      (by rw [hstate]; decide) (by decide) (by decide)).mpr haccepts
    have hfork : (validateScanBlockChain 63000 [7, 0, 0]
        (forkedOffers.map Offer.fetch)).toOption = none := by
      decide
    rw [show validateScanBlockChain 63000 [7, 0, 0] (forkedOffers.map Offer.fetch) = .ok () from
      hcheck] at hfork
    exact absurd hfork (by simp [Except.toOption])

/-! ## Digests of more than 40 bytes, and heights that are not belts -/

/-- A genesis block whose digest has a bit beyond its first 40 bytes. -/
def wideBlock : ScanBlock := ⟨0, Kernel.nnsGenesisHeight, 256 ^ 40, [], []⟩

/-- The block after it, linked to the digest zero. -/
def wideOffer : Offer := ⟨⟨63001, [8], [], [], []⟩, [], []⟩

/-- The block at the Goldilocks prime, with one valid claim. -/
def beltOffer : Offer where
  fetch := ⟨UInt64.ofNat goldilocks, [8], [7], [[20]], []⟩
  pageTxIds := [[20]]
  claims := [⟨"a.nock", "\x01", 327680000, [20], ⟨[20], [1], 327680000, treasuryLockRootB58⟩⟩]

theorem check_disagrees_on_wide_digest : ¬CheckAgrees sampleCrates sampleEnv (fun _ => True)
    fun height => height < goldilocks := by
  intro h
  have hst : Mirrors ⟨63000, sampleCrates.asNeBytes (256 ^ 40), [], 1⟩
      (runState sampleEnv [wideBlock.noun]) :=
    ⟨by decide +kernel, by decide +kernel⟩
  have hcheck := h [wideBlock.noun] _ hst trivial [wideOffer] (by decide +kernel) (by decide)
    (by decide)
  have hhull : (validateScanBlockChain 63000 (sampleCrates.asNeBytes (256 ^ 40))
      ([wideOffer].map Offer.fetch)).toOption = some () := by
    decide
  have hkernel : (acceptedBlock sampleEnv (runState sampleEnv [wideBlock.noun])
      (wideOffer.poke sampleCrates)).isSome = false := by
    decide +kernel
  have haccepts := (hcheck.mp (toOption_eq_some.mp hhull)).1
  rw [hkernel] at haccepts
  exact absurd haccepts (by simp)

theorem check_disagrees_at_goldilocks : ¬CheckAgrees sampleCrates sampleEnv
    (fun digest => digest < 256 ^ 40) fun _ => True := by
  intro h
  have hstate := runState_idle (goldilocks - 1 - Kernel.nnsGenesisHeight)
  have hst : Mirrors (paddedState (UInt64.ofNat (goldilocks - 1))) (runState sampleEnv
      ((List.range (goldilocks - 1 - Kernel.nnsGenesisHeight + 1)).map fun i =>
        (idleBlock i).noun)) := by
    rw [hstate]
    exact ⟨by decide, by decide⟩
  have hcheck := h _ _ hst (by rw [hstate]; decide) [beltOffer]
    (by rw [hstate]; decide) (by decide) (fun _ _ => trivial)
  rw [hstate] at hcheck
  have hhull : (validateScanBlockChain (UInt64.ofNat (goldilocks - 1)) [7, 0, 0]
      ([beltOffer].map Offer.fetch)).toOption = some () := by
    decide
  have hkernel : (acceptedBlock sampleEnv (idleState (goldilocks - 1 - Kernel.nnsGenesisHeight))
      (beltOffer.poke sampleCrates)).isSome = false := by
    decide +kernel
  have haccepts := (hcheck.mp (toOption_eq_some.mp hhull)).1
  rw [hkernel] at haccepts
  exact absurd haccepts (by simp)

/-- For all cursors and heights, the check does not agree with the kernel; neither the bound on the
digest nor that on the heights can be dropped. -/
theorem check_disagrees : sampleCrates.NounLaws ∧ sampleEnv.HashLaws ∧ sampleEnv.MapLaws ∧
    ¬CheckAgrees sampleCrates sampleEnv (fun _ => True) (fun _ => True) ∧
    ¬CheckAgrees sampleCrates sampleEnv (fun _ => True) (fun height => height < goldilocks) ∧
    ¬CheckAgrees sampleCrates sampleEnv (fun digest => digest < 256 ^ 40) fun _ => True := by
  refine ⟨sampleCrates_nounLaws, sampleEnv_hashLaws, sampleEnv_mapLaws, ?_,
    check_disagrees_on_wide_digest, check_disagrees_at_goldilocks⟩
  intro h
  refine check_disagrees_on_wide_digest fun inputs st hst hdigest offers hheights hnarrow _ => ?_
  exact h inputs st hst hdigest offers hheights hnarrow fun _ _ => trivial

end NnsVerified.Hull
