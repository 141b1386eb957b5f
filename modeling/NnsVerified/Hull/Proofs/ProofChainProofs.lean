import NnsVerified.Hull.Proofs.ExtractionProofs
import NnsVerified.Hull.Proofs.FollowerProofs

/-!
# The chain of recursive proofs

After the kernel has accepted a block, the follower asks for the transition of that block. The
handler starts the transition from the cursor, which is then at the block and no longer before it.
So the traced subject labels the block with the heights after it, and a proof that fails leaves a
gap that the next one does not close.
-/

namespace NnsVerified.Hull

open NnsVerified.Hoon NnsVerified.Library NnsVerified.Kernel

variable {H Z L Acc Vesl : Type} {c : Crates H Z L} {env : PeekEnv Acc Vesl} {sent : List Noun}

/-! ## The transition of an accepted block -/

/-- What the handler finds when the transition of an accepted block arrives. -/
theorem transition_after_block (hn : c.NounLaws) (hjam : env.JamLaws) {o : Offer} {b : ScanBlock}
    (hacc : acceptedBlock env.toEnv (runState env.toEnv sent) (o.poke c) = some b) {input : Noun}
    (hinput : transitionPoke c env (sent ++ [o.poke c]) o.fetch o.claims = some input) :
    ∃ rp p, (runState env.toEnv (sent ++ [o.poke c])).recursiveProof = some rp ∧
      softCause env.toEnv input = some (.proveRecursiveTransition p) ∧
      ChainsFrom env.toEnv p rp.1 rp.2.1 rp.2.2 ∧ p.claims = o.claims.map ClaimCandidate.toClaim ∧
      p.pageDigest = b.pageDigest ∧
      transitionInputs env.toEnv (runState env.toEnv (sent ++ [o.poke c])) p
        = buildRecursiveTransitionInputs env.toEnv rp.1 b.height
            (runState env.toEnv (sent ++ [o.poke c])).accumulator ⟨p.pageDigest, p.pageTxIds⟩
            p.claims p.blockProof p.pageDigest := by
  rw [transitionPoke_eq hn] at hinput
  obtain ⟨seeded, -, hinput⟩ := Option.bind_eq_some_iff.mp hinput
  obtain ⟨rp, hrp, rfl⟩ := Option.map_eq_some_iff.mp hinput
  have hchains := chainedFrom_chains env.toEnv o.fetch o.claims rp
  have haccepts := nextState_of_accepted hacc
  have hnext : runState env.toEnv (sent ++ [o.poke c])
      = nextState env.toEnv (runState env.toEnv sent) (o.poke c) := runState_snoc _ _
  have hpositive : 0 < b.height := by
    rw [haccepts.height, State.wantHeight]
    split <;> omega
  have hprev : (runState env.toEnv (sent ++ [o.poke c])).prevHeight = b.height := by
    rw [hnext, State.prevHeight, haccepts.nextHeight, if_pos hpositive]
  have hb : b = o.block := acceptedBlock_noun (poke_eq_noun hn o ▸ hacc)
  refine ⟨rp, _, hrp, softCause_proveTransition _ _, hchains, rfl, ?_, ?_⟩
  · rw [hb]
    rfl
  · rw [transitionInputs_chained hjam hrp hchains, hprev]

/-- A subject labels a block: it pairs the page with the height of the block and with the height
before it, and the accumulator that it names is the given one. -/
def LabelsBlock (env : Env Acc Vesl) (subj : Noun) (b : ScanBlock) (before : Acc) : Prop :=
  ∃ l, tracedLabels subj = some l ∧ l.page = (fromHullAtom b.pageDigest).limbs ∧
    l.wantH = b.height ∧ l.prevH + 1 = b.height ∧
    ∀ tag ∈ l.accTag, tag = accListHeadKey (env.zBy.tap before)

/-- The labels of the subject that is traced for a block with at most one claim: the heights of the
block and of its successor, and the accumulator into which the block has been folded. -/
theorem labels_after_block (hn : c.NounLaws) (hh : env.HashLaws) (hjam : env.JamLaws) {o : Offer}
    {b : ScanBlock}
    (hacc : acceptedBlock env.toEnv (runState env.toEnv sent) (o.poke c) = some b) {input : Noun}
    (hinput : transitionPoke c env (sent ++ [o.poke c]) o.fetch o.claims = some input)
    (hclaims : o.claims.length ≤ 1) :
    ∃ p subj form, softCause env.toEnv input = some (.proveRecursiveTransition p) ∧
      transitionInputs env.toEnv (runState env.toEnv (sent ++ [o.poke c])) p = .ok (subj, form) ∧
      tracedLabels subj = some ⟨b.height, (fromHullAtom b.pageDigest).limbs,
        if o.claims = [] then none
        else some (accListHeadKey (env.zBy.tap (runState env.toEnv (sent ++ [o.poke c])).accumulator)),
        b.height + 1⟩ := by
  obtain ⟨rp, p, -, hcause, -, hpclaims, hdigest, hinputs⟩ :=
    transition_after_block hn hjam hacc hinput
  have hone : p.claims.length ≤ 1 := by
    rw [hpclaims, List.length_map]
    exact hclaims
  obtain ⟨subj, form, hbuild, hlabels, -⟩ := buildTransition_labels hh rp.1 b.height
    (runState env.toEnv (sent ++ [o.poke c])).accumulator ⟨p.pageDigest, p.pageTxIds⟩ p.blockProof
    p.pageDigest hone
  refine ⟨p, subj, form, hcause, hinputs.trans hbuild, ?_⟩
  rw [hlabels, hdigest, hpclaims]
  simp only [List.map_eq_nil_iff]

/-- The subject that is traced for an accepted block labels the block exactly where nothing is
traced: in a block with two or more claims. -/
theorem transition_labels_iff (hn : c.NounLaws) (hh : env.HashLaws) (hjam : env.JamLaws)
    (sent : List Noun) (o : Offer) (b : ScanBlock)
    (hacc : acceptedBlock env.toEnv (runState env.toEnv sent) (o.poke c) = some b) (input : Noun)
    (hinput : transitionPoke c env (sent ++ [o.poke c]) o.fetch o.claims = some input) :
    ∃ p, softCause env.toEnv input = some (.proveRecursiveTransition p) ∧
      ((∀ subj form,
          transitionInputs env.toEnv (runState env.toEnv (sent ++ [o.poke c])) p = .ok (subj, form) →
          LabelsBlock env.toEnv subj b (runState env.toEnv sent).accumulator) ↔
        2 ≤ o.claims.length) := by
  by_cases hmany : 2 ≤ o.claims.length
  · obtain ⟨rp, p, -, hcause, -, hpclaims, -, hinputs⟩ :=
      transition_after_block hn hjam hacc hinput
    refine ⟨p, hcause, iff_of_true (fun subj form htraced => ?_) hmany⟩
    rw [hinputs, buildTransition_crash hh (by rw [hpclaims, List.length_map]; exact hmany)] at htraced
    cases htraced
  · obtain ⟨p, subj, form, hcause, hinputs, hlabels⟩ :=
      labels_after_block hn hh hjam hacc hinput (by omega)
    refine ⟨p, hcause, iff_of_false (fun h => ?_) hmany⟩
    obtain ⟨l, hl, -, hwant, -, -⟩ := h subj form hinputs
    obtain rfl := Option.some.inj (hlabels.symm.trans hl)
    dsimp only at hwant
    omega

/-- The sample kernel with a prover that looks at the subject. -/
def proverEnv (prove : Noun → Except Noun Noun) :
    PeekEnv (List (NnsNameKey × NnsAccumulatorEntry)) Unit :=
  { samplePeekEnv with proveComputation := fun subj _ _ _ => .ok (prove subj) }

theorem proverEnv_hashLaws (prove : Noun → Except Noun Noun) : (proverEnv prove).HashLaws :=
  sampleEnv_hashLaws.congr rfl

theorem proverEnv_mapLaws (prove : Noun → Except Noun Noun) : (proverEnv prove).MapLaws :=
  sampleEnv_mapLaws

theorem proverEnv_jamLaws (prove : Noun → Except Noun Noun) : (proverEnv prove).JamLaws :=
  sampleEnv_jamLaws

/-- The proof of the provers that succeed. -/
def sampleProof : Noun := .cell (.atom 1) (.atom 1)

/-- A kernel whose prover always succeeds. -/
def sureEnv : PeekEnv (List (NnsNameKey × NnsAccumulatorEntry)) Unit :=
  proverEnv fun _ => .ok sampleProof

/-- The first block, with one claim, as the follower offers it. -/
def claimOffer : Offer where
  fetch := ⟨63000, [7], [1], [leBytes 40 (cord "T1")],
    [claimTransaction "T1" "eve" "nns/v1/claim/a.nock"]⟩
  pageTxIds := [leBytes 40 (cord "T1")]
  claims := [paidClaim]

theorem claimOffer_accepted : acceptedBlock sureEnv.toEnv
    (runState sureEnv.toEnv [proveGenesisNoun]) (claimOffer.poke sampleCrates)
      = some claimOffer.block := by
  decide +kernel

theorem claimOffer_transition : ∃ input, transitionPoke sampleCrates sureEnv
    ([proveGenesisNoun] ++ [claimOffer.poke sampleCrates]) claimOffer.fetch claimOffer.claims
      = some input := by
  have hsome : (transitionPoke sampleCrates sureEnv
      ([proveGenesisNoun] ++ [claimOffer.poke sampleCrates]) claimOffer.fetch
        claimOffer.claims).isSome = true := by
    decide +kernel
  exact Option.isSome_iff_exists.mp hsome

theorem transition_labels_iff_claim : ∃ input p,
    transitionPoke sampleCrates sureEnv ([proveGenesisNoun] ++ [claimOffer.poke sampleCrates])
      claimOffer.fetch claimOffer.claims = some input ∧
    softCause sureEnv.toEnv input = some (.proveRecursiveTransition p) ∧
    ((∀ subj form,
        transitionInputs sureEnv.toEnv (runState sureEnv.toEnv
          ([proveGenesisNoun] ++ [claimOffer.poke sampleCrates])) p = .ok (subj, form) →
        LabelsBlock sureEnv.toEnv subj claimOffer.block
          (runState sureEnv.toEnv [proveGenesisNoun]).accumulator) ↔ 2 ≤ 1) := by
  obtain ⟨input, hinput⟩ := claimOffer_transition
  obtain ⟨p, hcause, hiff⟩ := transition_labels_iff sampleCrates_nounLaws (proverEnv_hashLaws _)
    (proverEnv_jamLaws _) _ claimOffer _ claimOffer_accepted input hinput
  exact ⟨input, p, hinput, hcause, hiff⟩

/-- The subject that is traced for the first block pairs its page with the heights `63000` and
`63001`, and names the accumulator that already holds the claim. -/
theorem transition_labels_next_block : ∃ input p subj form l,
    extractClaims sampleCrates claimOffer.fetch.txDetails = .ok claimOffer.claims ∧
    transitionPoke sampleCrates sureEnv ([proveGenesisNoun] ++ [claimOffer.poke sampleCrates])
      claimOffer.fetch claimOffer.claims = some input ∧
    softCause sureEnv.toEnv input = some (.proveRecursiveTransition p) ∧
    transitionInputs sureEnv.toEnv (runState sureEnv.toEnv
      ([proveGenesisNoun] ++ [claimOffer.poke sampleCrates])) p = .ok (subj, form) ∧
    tracedLabels subj = some l ∧ claimOffer.block.height = 63000 ∧ l.prevH = 63000 ∧
    l.wantH = 63001 ∧
    l.accTag ≠ some (accListHeadKey
      (sureEnv.zBy.tap (runState sureEnv.toEnv [proveGenesisNoun]).accumulator)) ∧
    ¬LabelsBlock sureEnv.toEnv subj claimOffer.block
      (runState sureEnv.toEnv [proveGenesisNoun]).accumulator := by
  obtain ⟨input, hinput⟩ := claimOffer_transition
  obtain ⟨p, subj, form, hcause, hinputs, hlabels⟩ := labels_after_block sampleCrates_nounLaws
    (proverEnv_hashLaws _) (proverEnv_jamLaws _) claimOffer_accepted hinput (by decide)
  have htag : accListHeadKey (sureEnv.zBy.tap (runState sureEnv.toEnv
      ([proveGenesisNoun] ++ [claimOffer.poke sampleCrates])).accumulator)
        ≠ accListHeadKey (sureEnv.zBy.tap (runState sureEnv.toEnv
          [proveGenesisNoun]).accumulator) := by
    decide +kernel
  have hextract : extractClaims sampleCrates claimOffer.fetch.txDetails = .ok claimOffer.claims := by
    decide
  rw [if_neg (by decide)] at hlabels
  refine ⟨input, p, subj, form, _, hextract, hinput, hcause, hinputs, hlabels, rfl, rfl, rfl, ?_, ?_⟩
  · intro heq
    exact htag (Option.some.inj heq)
  · rintro ⟨l, hl, -, hwant, -, -⟩
    obtain rfl := Option.some.inj (hlabels.symm.trans hl)
    exact absurd hwant (by decide)

/-! ## The links of the chain -/

/-- The transition that a poke asks for. -/
def transitionOf (env : Env Acc Vesl) (input : Noun) : Option ProveTransition :=
  match softCause env input with
  | some (.proveRecursiveTransition p) => some p
  | _ => none

/-- The two heights of the link that a poke adds to the chain: the one that the stored subject starts
from, and the one that the subject of the previous proof ends at. `none` where the poke stores no
transition. -/
def newLink (env : Env Acc Vesl) (s : State Acc Vesl) (input : Noun) :
    Option (Option Nat × Option Nat) := do
  let p ← transitionOf env input
  let (effects, t) ← (poke env s input).toOption
  let (proof, subj, _) ← t.recursiveProof
  if .recursiveTransitionProof proof ∉ effects then none
  let prevSubj ← (previousNoun env p.prevSubjectJam
    (s.recursiveProof.map fun rp => rp.2.1)).toOption
  return (startHeight subj, endHeight prevSubj)

/-- A transition that a poke stores starts where its previous proof ends. -/
def LinkedPoke (env : Env Acc Vesl) (s : State Acc Vesl) (input : Noun) : Prop :=
  ∀ link ∈ newLink env s input, link.1.isSome ∧ link.1 = link.2

/-- A transition that a poke asks for has at most one claim, and the prover proves the pair that the
builder makes for it. -/
def TransitionProved (env : Env Acc Vesl) (s : State Acc Vesl) (input : Noun) : Prop :=
  ∀ p ∈ transitionOf env input, p.claims.length ≤ 1 ∧
    ∀ subj form, transitionInputs env s p = .ok (subj, form) → Provable env s subj form

/-- The stored proof ends where the next block starts. -/
def Continues (s : State Acc Vesl) : Prop :=
  ∀ rp ∈ s.recursiveProof, endHeight rp.2.1 = some s.wantHeight

/-- The pokes of a follower whose chain of proofs has no gap. -/
structure Chained (env : Env Acc Vesl) (sent : List Noun) : Prop where
  links : Along (step env) (fresh env) (LinkedPoke env) sent
  continues : Continues (runState env sent)

/-- The pokes sent in addition keep the chain, where their transitions are proved. -/
def KeepsChain (env : Env Acc Vesl) (sent sent' : List Noun) : Prop :=
  sent <+: sent' ∧ (Along (step env) (fresh env) (TransitionProved env) sent' →
    Chained env sent → Chained env sent')

section

variable {env : Env Acc Vesl} {s : State Acc Vesl} {sent sent' sent'' : List Noun} {input : Noun}

theorem transitionOf_eq_some {p : ProveTransition} :
    transitionOf env input = some p ↔ softCause env input = some (.proveRecursiveTransition p) := by
  unfold transitionOf
  split <;> simp_all

theorem transitionOf_eq_none {cause : Cause} (h : softCause env input = some cause)
    (hcause : ∀ p, cause ≠ .proveRecursiveTransition p) : transitionOf env input = none := by
  rw [← Option.not_isSome_iff_eq_none, Option.isSome_iff_exists]
  rintro ⟨p, hp⟩
  rw [transitionOf_eq_some, h] at hp
  exact hcause p (Option.some.inj hp)

theorem LinkedPoke.of_none (h : transitionOf env input = none) : LinkedPoke env s input := by
  intro link hlink
  have hnone : newLink env s input = none := by
    unfold newLink
    rw [h]
    rfl
  rw [hnone] at hlink
  cases hlink

theorem KeepsChain.refl (env : Env Acc Vesl) (sent : List Noun) : KeepsChain env sent sent :=
  ⟨List.prefix_refl _, fun _ h => h⟩

theorem KeepsChain.trans (h : KeepsChain env sent sent') (h' : KeepsChain env sent' sent'') :
    KeepsChain env sent sent'' := by
  refine ⟨h.1.trans h'.1, fun hproved hsent => h'.2 hproved (h.2 ?_ hsent)⟩
  obtain ⟨rest, rfl⟩ := h'.1
  exact hproved.of_append

/-- A poke that asks for no transition keeps the chain when the stored proof still continues. -/
theorem KeepsChain.of_none (h : transitionOf env input = none)
    (hcontinues : Continues (runState env sent) → Continues (nextState env (runState env sent) input)) :
    KeepsChain env sent (sent ++ [input]) := by
  refine ⟨List.prefix_append _ _, fun _ hsent => ⟨along_concat.mpr ⟨hsent.links, .of_none h⟩, ?_⟩⟩
  rw [runState_snoc]
  exact hcontinues hsent.continues

/-- A state with the cursor and the proof of one that continues. -/
theorem Continues.congr {t : State Acc Vesl} (h : Continues s)
    (hproof : t.recursiveProof = s.recursiveProof)
    (hheight : t.lastProvedHeight = s.lastProvedHeight)
    (hdigest : t.lastProvedDigest = s.lastProvedDigest) : Continues t := by
  intro rp hrp
  rw [hproof] at hrp
  rw [h rp hrp]
  unfold State.wantHeight State.boot
  rw [hheight, hdigest]

/-! ## What the pokes of the follower do to the chain -/

/-- The base case of the chain: the genesis proof ends at the first height. -/
theorem keepsChain_genesis (hboot : (runState env sent).boot = true) :
    KeepsChain env sent (sent ++ [proveGenesisNoun]) := by
  have hcause := softCause_proveGenesis env
  refine .of_none (transitionOf_eq_none hcause (by simp)) fun hsent => ?_
  refine nextState_rule (P := Continues) hsent fun effects t hpoke => ?_
  have harm : proveRecursiveGenesis env (runState env sent) = .ok (effects, t) :=
    (poke_of_softCause _ hcause).symm.trans hpoke
  obtain ⟨acc, dryOk, -, -, ⟨reason, -, rfl⟩ | ⟨proof, -, -, rfl⟩⟩ :=
    proveRecursiveGenesis_cases harm
  · exact hsent.congr rfl rfl rfl
  · intro rp hrp
    obtain rfl := Option.some.inj hrp
    have hheight : (runState env sent).lastProvedHeight = 0 := by
      unfold State.boot at hboot
      simp only [Bool.and_eq_true, decide_eq_true_eq] at hboot
      exact hboot.1
    have hwant : (runState env sent).wantHeight = Kernel.nnsGenesisHeight := by
      unfold State.wantHeight
      rw [if_pos hboot, hheight]
      rfl
    exact endHeight_genesis.trans (congrArg some hwant.symm)

/-- A `%scan-block` poke keeps the stored proof. -/
theorem recursiveProof_scanBlock (b : ScanBlock) :
    (nextState env s b.noun).recursiveProof = s.recursiveProof := by
  refine nextState_rule (P := fun t => t.recursiveProof = s.recursiveProof) rfl ?_
  intro effects t hpoke
  rcases scanBlock_cases ((poke_scanBlock env s b).symm.trans hpoke) with
    ⟨e, acc, -, rfl, -⟩ | ⟨seeded, acc, root, -, -, -, -, -, -, rfl⟩
  · rfl
  · rfl

theorem transitionOf_scanBlock (b : ScanBlock) : transitionOf env b.noun = none :=
  transitionOf_eq_none (softCause_scanBlock env b) (by simp)

theorem keepsChain_rejected {b : ScanBlock}
    (h : acceptedBlock env (runState env sent) b.noun = none) :
    KeepsChain env sent (sent ++ [b.noun]) := by
  obtain ⟨hheight, hdigest, -⟩ := nextState_of_rejected h
  exact .of_none (transitionOf_scanBlock b) fun hsent =>
    hsent.congr (recursiveProof_scanBlock b) hheight hdigest

/-- The cursor after an accepted block. -/
theorem wantHeight_of_accepted {b : ScanBlock} (h : acceptedBlock env s input = some b) :
    0 < b.height ∧ (nextState env s input).wantHeight = b.height + 1 := by
  have haccepts := nextState_of_accepted h
  have hpositive : 0 < b.height := by
    rw [haccepts.height, State.wantHeight]
    split <;> omega
  refine ⟨hpositive, ?_⟩
  have hboot : (nextState env s input).boot = false := by
    unfold State.boot
    rw [haccepts.nextHeight]
    simp [Nat.pos_iff_ne_zero.mp hpositive]
  rw [State.wantHeight, hboot, haccepts.nextHeight]
  rfl

/-- A stored transition links to the proof that it chains from, when that ends where the transition
starts, and continues at the height after it. -/
theorem transition_links (hjam : env.JamLaws) {p : ProveTransition} {rp : Noun × Noun × Noun}
    {subj form proof : Noun} {dryOk : Bool} {l : TracedLabels}
    (hcause : softCause env input = some (.proveRecursiveTransition p))
    (hrp : s.recursiveProof = some rp) (hchains : ChainsFrom env p rp.1 rp.2.1 rp.2.2)
    (hlabels : tracedLabels subj = some l)
    (hstored : proveRecursiveTransition env s p
      = .ok ([.recursiveTransitionDryRunOk dryOk, .recursiveTransitionProof proof],
        { s with lastProved := some (subj, form), recursiveProof := some (proof, subj, form) }))
    (hend : endHeight rp.2.1 = some l.prevH) (hwant : l.wantH = s.wantHeight) :
    LinkedPoke env s input ∧ Continues (nextState env s input) := by
  have hpoke := (poke_of_softCause s hcause).trans hstored
  constructor
  · intro link hlink
    unfold newLink at hlink
    rw [transitionOf_eq_some.mpr hcause, hpoke] at hlink
    simp only [Except.toOption, Option.bind_eq_bind, Option.bind_some, List.mem_cons,
      Effect.recursiveTransitionProof.injEq, reduceCtorEq, false_or, true_or, not_true_eq_false,
      if_false, hrp, Option.map_some, hchains.2.1, previousNoun_jam hjam] at hlink
    obtain rfl := Option.some.inj hlink
    rw [hend, startHeight, hlabels]
    exact ⟨rfl, rfl⟩
  · intro rp' hrp'
    rw [nextState_of_ok hpoke] at hrp' ⊢
    obtain rfl := Option.some.inj hrp'
    exact (endHeight_of_labels hlabels).trans (congrArg some hwant)

end

section

variable (hn : c.NounLaws) (hh : env.HashLaws) (hm : env.MapLaws) (hjam : env.JamLaws)

include hn hh hm hjam

/-- A step of the chain: an accepted block and its transition. -/
theorem keepsChain_accepted (hfuel : traceBudget ≤ env.fuel) {o : Offer} {b : ScanBlock}
    (hacc : acceptedBlock env.toEnv (runState env.toEnv sent) (o.poke c) = some b) :
    KeepsChain env.toEnv sent (sent ++ [o.poke c] ++
      (transitionPoke c env (sent ++ [o.poke c]) o.fetch o.claims).toList) := by
  have haccepts := nextState_of_accepted hacc
  have hpoke := poke_eq_noun hn o
  have hproof : (runState env.toEnv (sent ++ [o.poke c])).recursiveProof
      = (runState env.toEnv sent).recursiveProof := by
    rw [runState_snoc, hpoke]
    exact recursiveProof_scanBlock _
  obtain ⟨hpositive, hwant⟩ := wantHeight_of_accepted hacc
  rw [← runState_snoc] at hwant haccepts
  have hquiet : LinkedPoke env.toEnv (runState env.toEnv sent) (o.poke c) :=
    .of_none (hpoke ▸ transitionOf_scanBlock _)
  refine ⟨(List.prefix_append _ _).trans (List.prefix_append _ _), fun hproved hsent => ?_⟩
  have hlinks := along_concat.mpr ⟨hsent.links, hquiet⟩
  cases hinput : transitionPoke c env (sent ++ [o.poke c]) o.fetch o.claims with
  | none =>
    rw [Option.toList_none, List.append_nil]
    refine ⟨hlinks, fun rp hrp => ?_⟩
    -- the follower asks for a transition wherever a proof is stored
    obtain ⟨seeded, hseeded, -⟩ :=
      ensureGenesisTld_spec hh hm (runInv hh hm (sent ++ [o.poke c])).inserted
    rw [transitionPoke_eq hn, hseeded, hrp] at hinput
    cases hinput
  | some input =>
    rw [hinput, Option.toList_some, along_concat] at hproved
    obtain ⟨rp, p, hrp, hcause, hchains, -, -, hinputs⟩ :=
      transition_after_block hn hjam hacc hinput
    obtain ⟨hclaims, hprovable⟩ := hproved.2 p (transitionOf_eq_some.mpr hcause)
    obtain ⟨subj, form, hbuild, hlabels, hform⟩ := buildTransition_labels hh rp.1 b.height
      (runState env.toEnv (sent ++ [o.poke c])).accumulator ⟨p.pageDigest, p.pageTxIds⟩
      p.blockProof p.pageDigest hclaims
    obtain ⟨root, hroot⟩ := haccepts.root
    obtain ⟨dryOk, proof, hstored⟩ := proveRecursiveTransition_stored hjam hfuel hrp hchains
      (hinputs.trans hbuild) hform hroot (hprovable subj form (hinputs.trans hbuild))
    have hend : endHeight rp.2.1 = some b.height := by
      rw [hsent.continues rp (hproof ▸ hrp), haccepts.height]
    obtain ⟨hlink, hcontinues⟩ :=
      transition_links hjam hcause hrp hchains hlabels hstored hend hwant.symm
    rw [Option.toList_some]
    exact ⟨along_concat.mpr ⟨hlinks, hlink⟩, by rw [runState_snoc]; exact hcontinues⟩

/-! ## Runs of the follower -/

variable [DecidableEq H] (hfuel : traceBudget ≤ env.fuel)

include hfuel

theorem keepsChain_applyBlock (block : ScanBlockFetch) :
    KeepsChain env.toEnv sent (applyBlock c env sent block).1 := by
  have hcases : (applyBlock c env sent block).1 = sent ∨ _ := applyBlock_cases hn block
  rcases hcases with hsame | ⟨o, rfl, ⟨hrejected, hsent⟩ | ⟨haccepted, hsent⟩⟩
  · rw [hsame]
    exact .refl _ _
  · rw [hsent, poke_eq_noun hn]
    rw [poke_eq_noun hn] at hrejected
    exact keepsChain_rejected hrejected
  · rw [hsent]
    exact keepsChain_accepted hn hh hm hjam hfuel haccepted

theorem keepsChain_applyBlocks (lastDone : Option ScanBlockDone) (blocks : List ScanBlockFetch) :
    KeepsChain env.toEnv sent (applyBlocks c env sent lastDone blocks).1 := by
  induction blocks generalizing sent lastDone with
  | nil => exact .refl _ _
  | cons block blocks ih =>
    have hblock : KeepsChain env.toEnv sent (applyBlock c env sent block).1 :=
      keepsChain_applyBlock hn hh hm hjam hfuel block
    unfold applyBlocks
    generalize applyBlock c env sent block = applied at hblock ⊢
    obtain ⟨sent', result⟩ := applied
    cases result with
    | error e => exact hblock
    | ok done => exact hblock.trans (ih (some done))

theorem keepsChain_applyPrefetched (prefetched : List ScanBlockFetch) :
    KeepsChain env.toEnv sent (applyPrefetchedScanBlocks c env sent prefetched).1 := by
  unfold applyPrefetchedScanBlocks
  split
  · exact .refl _ _
  · split
    · exact .refl _ _
    · split
      · exact .refl _ _
      · exact keepsChain_applyBlocks hn hh hm hjam hfuel none prefetched

omit hjam hfuel [DecidableEq H] in
theorem keepsChain_genesisProof {st : ScanState} (hst : followerScanState c env sent = .ok st) :
    KeepsChain env.toEnv sent (genesisProof c env sent st).1 := by
  have hboot := scanCursorIsGenesisBoot_eq (runInv hh hm sent) (mirrors_of_followerScanState hn hst)
  unfold genesisProof
  rw [hboot, buildProveRecursiveGenesisPoke_eq hn]
  split
  · exact keepsChain_genesis (by assumption)
  · exact .refl _ _

theorem keepsChain_scanOnce (tick : Tick) :
    KeepsChain env.toEnv sent (scanOnce c env sent tick).1 := by
  unfold scanOnce
  cases hst : followerScanState c env sent with
  | error e => exact .refl _ _
  | ok st =>
    have hgenesis := keepsChain_genesisProof (c := c) hn hh hm hst
    dsimp only
    generalize genesisProof c env sent st = booted at hgenesis ⊢
    obtain ⟨sent', result⟩ := booted
    cases result with
    | error e => exact hgenesis
    | ok _ =>
      dsimp only
      split
      · exact hgenesis
      · split
        · exact hgenesis
        · split
          · exact hgenesis
          · exact hgenesis.trans (keepsChain_applyPrefetched hn hh hm hjam hfuel _)

theorem keepsChain_ticks (ticks : List Tick) (sent : List Noun) :
    KeepsChain env.toEnv sent (ticks.foldl (fun sent tick => (scanOnce c env sent tick).1) sent) := by
  induction ticks generalizing sent with
  | nil => exact .refl _ _
  | cons tick ticks ih =>
    exact (keepsChain_scanOnce hn hh hm hjam hfuel tick).trans (ih _)

/-- In every run of the follower whose transitions have at most one claim and are proved, each stored
transition starts where the proof before it ends. -/
theorem proof_chain_linked (ticks : List Tick)
    (hproved : Along (step env.toEnv) (fresh env.toEnv) (TransitionProved env.toEnv)
      (followerPokes c env ticks)) :
    Along (step env.toEnv) (fresh env.toEnv) (LinkedPoke env.toEnv) (followerPokes c env ticks) := by
  have hstart : Chained env.toEnv [] := ⟨along_nil, fun rp hrp => by cases hrp⟩
  exact ((keepsChain_ticks hn hh hm hjam hfuel ticks []).2 hproved hstart).links

end

/-- A pass that finds the first two blocks, without claims. -/
def twoBlocks : Tick :=
  ⟨.ok 70000, 2, fun _ => .ok [⟨63000, [7], [1], [], []⟩, ⟨63001, [8], [7], [], []⟩]⟩

theorem proof_chain_linked_two :
    (followerPokes sampleCrates sureEnv [twoBlocks]).length = 5 ∧
    Along (step sureEnv.toEnv) (fresh sureEnv.toEnv) (LinkedPoke sureEnv.toEnv)
      (followerPokes sampleCrates sureEnv [twoBlocks]) := by
  have hrun : (followerPokes sampleCrates sureEnv [twoBlocks]).length = 5 ∧
      ((followerPokes sampleCrates sureEnv [twoBlocks]).all fun input =>
        (transitionOf sureEnv.toEnv input).all fun p => p.claims.length ≤ 1) = true := by
    decide +kernel
  refine ⟨hrun.1, proof_chain_linked sampleCrates_nounLaws (proverEnv_hashLaws _)
    (proverEnv_mapLaws _) (proverEnv_jamLaws _) (by decide) [twoBlocks] ?_⟩
  intro pre input hpre p hp
  have hinput := List.all_eq_true.mp hrun.2 input (hpre.subset (by simp))
  rw [show transitionOf sureEnv.toEnv input = some p from hp] at hinput
  exact ⟨of_decide_eq_true hinput, fun subj form _ root _ => ⟨sampleProof, rfl⟩⟩

/-- A kernel whose prover fails on the transition of the first block. -/
def flakyEnv : PeekEnv (List (NnsNameKey × NnsAccumulatorEntry)) Unit :=
  proverEnv fun subj =>
    if startHeight subj = some Kernel.nnsGenesisHeight then .error (.atom 0) else .ok sampleProof

/-- After a transition that is not proved, the next one starts at `63001` and its previous proof, the
genesis proof, ends at `63000`. -/
theorem proof_chain_gap :
    (∃ pre input, pre ++ [input] <+: followerPokes sampleCrates flakyEnv [twoBlocks] ∧
      newLink flakyEnv.toEnv (runState flakyEnv.toEnv pre) input = some (some 63001, some 63000)) ∧
    ¬∀ ticks, Along (step flakyEnv.toEnv) (fresh flakyEnv.toEnv) (LinkedPoke flakyEnv.toEnv)
      (followerPokes sampleCrates flakyEnv ticks) := by
  have hlast : ((followerPokes sampleCrates flakyEnv [twoBlocks]).getLast?.bind
      (newLink flakyEnv.toEnv (runState flakyEnv.toEnv
        (followerPokes sampleCrates flakyEnv [twoBlocks]).dropLast)))
        = some (some 63001, some 63000) := by
    decide +kernel
  obtain ⟨input, hinput, hlink⟩ := Option.bind_eq_some_iff.mp hlast
  have hpre : (followerPokes sampleCrates flakyEnv [twoBlocks]).dropLast ++ [input]
      <+: followerPokes sampleCrates flakyEnv [twoBlocks] := by
    rw [List.dropLast_append_getLast? input hinput]
  refine ⟨⟨_, input, hpre, hlink⟩, fun h => ?_⟩
  have hsame := (h [twoBlocks] _ input hpre _ hlink).2
  exact absurd hsame (by decide)

end NnsVerified.Hull
