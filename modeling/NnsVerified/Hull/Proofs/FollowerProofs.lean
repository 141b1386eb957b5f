import NnsVerified.Hull.FollowerRun
import NnsVerified.Hull.Proofs.PlanProofs
import NnsVerified.Kernel.Proofs.LabelProofs

/-!
# What the follower does to the kernel

The follower decodes the cursor and the stored proof of the kernel, and reads off the effects of a
`%scan-block` poke whether the kernel accepted the block. Each pass of its loop sends the pokes that
`applyBlock_cases` lists.
-/

namespace NnsVerified.Hull

open NnsVerified.Hoon NnsVerified.Library NnsVerified.Kernel

variable {H Z L Acc Vesl : Type} {c : Crates H Z L} {env : PeekEnv Acc Vesl} {sent : List Noun}

/-! ## Peeks -/

section

variable (hn : c.NounLaws)

include hn

theorem singleTagPeek_eq (tagStr : String) :
    singleTagPeek c tagStr = .cell (.atom (cord tagStr)) (.atom 0) := by
  unfold singleTagPeek
  rw [hn.makeTagIn_eq]
  rfl

theorem buildScanStatePeek_eq : buildScanStatePeek c = Peek.scanState.path := singleTagPeek_eq hn _

theorem buildRecursiveProofPeek_eq : buildRecursiveProofPeek c = Peek.recursiveProof.path :=
  singleTagPeek_eq hn _

/-- The scan state that the follower decodes is the cursor of the kernel. -/
theorem mirrors_of_followerScanState {st : ScanState}
    (h : followerScanState c env sent = .ok st) : Mirrors st (runState env.toEnv sent) := by
  unfold followerScanState at h
  rw [buildScanStatePeek_eq hn] at h
  obtain ⟨answer, hanswer, hdecode⟩ := bind_eq_ok h
  obtain ⟨value, hvalue, rfl⟩ := peekNoun_path_ok (mapError_eq_ok.mp hanswer)
  have hpeek : scanStateAnswer env.toEnv (runState env.toEnv sent)
      = .ok (Noun.tuple (.atom 0) [.atom 0, value]) := by
    have hscan : peekScanState env.toEnv (runState env.toEnv sent) = .ok value := hvalue
    unfold scanStateAnswer
    rw [hscan]
    rfl
  exact (decodeScanState_answer hn hpeek).1 st (mapError_eq_ok.mp hdecode)

/-- The follower reads the jams of the stored proof. -/
theorem prevTriple_eq : prevTriple c env sent =
    (ensureGenesisTld env.toEnv (runState env.toEnv sent).accumulator).toOption.bind fun _ =>
      (runState env.toEnv sent).recursiveProof.map fun rp => (c.asNeBytes (env.jam rp.1),
        c.asNeBytes (env.jam rp.2.1), c.asNeBytes (env.jam rp.2.2)) := by
  unfold prevTriple
  rw [buildRecursiveProofPeek_eq hn, peekNoun_path]
  cases ensureGenesisTld env.toEnv (runState env.toEnv sent).accumulator with
  | error e => rfl
  | ok seeded =>
    unfold peekValue
    cases (runState env.toEnv sent).recursiveProof with
    | none => rfl
    | some rp => rfl

end

/-! ## The poke of a transition -/

/-- The transition of a block, from a stored proof. -/
def chainedFrom (env : Env Acc Vesl) (block : ScanBlockFetch) (claims : List ClaimCandidate)
    (rp : Noun × Noun × Noun) : ProveTransition where
  prevProofJam := env.jam rp.1
  prevSubjectJam := env.jam rp.2.1
  prevFormulaJam := env.jam rp.2.2
  pageDigest := leValue block.pageDigest
  pageTxIds := block.pageTxIds.map leValue
  claims := claims.map ClaimCandidate.toClaim
  blockProof := .atom 0

/-- The follower asks for a transition from the stored proof, where there is one. -/
theorem transitionPoke_eq (hn : c.NounLaws) (block : ScanBlockFetch)
    (claims : List ClaimCandidate) : transitionPoke c env sent block claims =
      (ensureGenesisTld env.toEnv (runState env.toEnv sent).accumulator).toOption.bind fun _ =>
        (runState env.toEnv sent).recursiveProof.map fun rp =>
          (chainedFrom env.toEnv block claims rp).noun := by
  unfold transitionPoke
  rw [prevTriple_eq hn]
  cases ensureGenesisTld env.toEnv (runState env.toEnv sent).accumulator with
  | error e => rfl
  | ok seeded =>
    cases (runState env.toEnv sent).recursiveProof with
    | none => rfl
    | some rp =>
      show some (buildProveRecursiveTransitionPoke c _ _ _ _ _ _ _) = some _
      rw [buildProveRecursiveTransitionPoke_eq hn, toProveTransition, hn.leValue_asNeBytes,
        hn.leValue_asNeBytes, hn.leValue_asNeBytes]
      rfl

theorem chainedFrom_chains (env : Env Acc Vesl) (block : ScanBlockFetch)
    (claims : List ClaimCandidate) (rp : Noun × Noun × Noun) :
    ChainsFrom env (chainedFrom env block claims rp) rp.1 rp.2.1 rp.2.2 := ⟨rfl, rfl, rfl⟩

/-! ## The effects of a block -/

theorem scanBlockResult_rejected (hn : c.NounLaws) (e : ScanBlockFault) :
    ∃ msg, scanBlockResult c [(Effect.scanBlockError e).noun] = .error msg := by
  have herr : firstScanBlockError c [(Effect.scanBlockError e).noun] = some e.text := by
    unfold firstScanBlockError
    rw [List.findSome?_cons, scanBlockError_noun hn]
  unfold scanBlockResult
  rw [herr]
  exact ⟨_, rfl⟩

theorem scanBlockResult_accepted (hn : c.NounLaws) {height : Nat} (digest root : Nat)
    (hheight : height < 2 ^ 64) :
    scanBlockResult c [(Effect.scanBlockDone height digest root).noun]
      = .ok ⟨UInt64.ofNat height, c.asNeBytes digest, c.asNeBytes root⟩ := by
  have hdone := scanBlockDone_noun (c := c) hn digest root hheight
  have htag : effectTag c (Effect.scanBlockDone height digest root).noun = some "scan-block-done" :=
    effectTag_tagged hn (by simp [NoNul]) _
  have herr : scanBlockError c (Effect.scanBlockDone height digest root).noun = none := by
    unfold scanBlockError
    rw [htag]
    rfl
  have hmsg : errorMessage c (Effect.scanBlockDone height digest root).noun = none := by
    unfold errorMessage
    rw [htag]
    rfl
  unfold scanBlockResult firstScanBlockError firstErrorMessage firstScanBlockDone
  simp only [List.findSome?_cons, List.findSome?_nil, herr, hmsg, hdone]

/-- The follower goes on after a `%scan-block` poke exactly when the kernel accepted the block. -/
theorem scanBlockResult_iff (hn : c.NounLaws) {b : ScanBlock} (hheight : b.height < 2 ^ 64) :
    (∃ effects done, sendPoke env sent b.noun = some effects ∧
        scanBlockResult c effects = .ok done) ↔
      acceptedBlock env.toEnv (runState env.toEnv sent) b.noun = some b := by
  unfold sendPoke
  cases hpoke : poke env.toEnv (runState env.toEnv sent) b.noun with
  | error e =>
    refine iff_of_false (by simp [Except.toOption]) fun h => ?_
    rw [acceptedBlock_of_error hpoke] at h
    cases h
  | ok r =>
    obtain ⟨effects, t⟩ := r
    have hscan := hpoke
    rw [poke_scanBlock] at hscan
    rcases scanBlock_cases hscan with ⟨e, acc, rfl, -, -⟩ |
      ⟨seeded, acc, root, -, -, -, -, -, rfl, -⟩
    · obtain ⟨msg, hmsg⟩ := scanBlockResult_rejected (c := c) hn e
      refine iff_of_false ?_ fun h => ?_
      · rintro ⟨effects, done, heffects, hdone⟩
        obtain rfl := Option.some.inj heffects
        exact absurd (hmsg.symm.trans hdone) (by simp)
      · have hsome := (acceptedBlock_isSome hpoke).mp (by rw [h]; rfl)
        simp [Effect.isDone] at hsome
    · have hdone := scanBlockResult_accepted (c := c) hn b.pageDigest root hheight
      exact iff_of_true ⟨_, _, rfl, hdone⟩ (acceptedBlock_of_done hpoke)

/-! ## Passes of the loop -/

theorem poke_eq_noun (hn : c.NounLaws) (o : Offer) : o.poke c = o.block.noun :=
  buildScanBlockPoke_eq hn _ _ _ _ _

/-- What the loop sends for a block: nothing, or a poke that the kernel does not accept, or one that
it accepts and then the transition of the block. -/
theorem applyBlock_cases [DecidableEq H] (hn : c.NounLaws) (block : ScanBlockFetch) :
    (applyBlock c env sent block).1 = sent ∨
    ∃ o : Offer, o.fetch = block ∧
      ((acceptedBlock env.toEnv (runState env.toEnv sent) (o.poke c) = none ∧
          (applyBlock c env sent block).1 = sent ++ [o.poke c]) ∨
        (acceptedBlock env.toEnv (runState env.toEnv sent) (o.poke c) = some o.block ∧
          (applyBlock c env sent block).1 = sent ++ [o.poke c] ++
            (transitionPoke c env (sent ++ [o.poke c]) block o.claims).toList)) := by
  unfold applyBlock
  cases horder : canonicalZSetTxOrder c block.pageTxIds with
  | error e => exact Or.inl rfl
  | ok pageTxForPoke =>
    cases hclaims : extractClaims c block.txDetails with
    | error e => exact Or.inl rfl
    | ok claims =>
      let o : Offer := ⟨block, pageTxForPoke, claims⟩
      have hiff : (∃ effects done, sendPoke env sent (o.poke c) = some effects ∧
          scanBlockResult c effects = .ok done) ↔
          acceptedBlock env.toEnv (runState env.toEnv sent) (o.poke c) = some o.block := by
        rw [poke_eq_noun hn o]
        exact scanBlockResult_iff hn block.height.toNat_lt
      have hnone : (¬∃ effects done, sendPoke env sent (o.poke c) = some effects ∧
          scanBlockResult c effects = .ok done) →
          acceptedBlock env.toEnv (runState env.toEnv sent) (o.poke c) = none := by
        intro hfail
        by_contra hsome
        obtain ⟨b, hacc⟩ := Option.ne_none_iff_exists'.mp hsome
        have hb : b = o.block := acceptedBlock_noun (poke_eq_noun hn o ▸ hacc)
        exact hfail (hiff.mpr (hb ▸ hacc))
      refine Or.inr ⟨o, rfl, ?_⟩
      dsimp only
      rw [show buildScanBlockPoke c block.parent block.height block.pageDigest pageTxForPoke claims
        = o.poke c from rfl]
      cases hsend : sendPoke env sent (o.poke c) with
      | none =>
        refine Or.inl ⟨hnone ?_, rfl⟩
        rintro ⟨effects, done, heffects, -⟩
        rw [hsend] at heffects
        cases heffects
      | some effects =>
        dsimp only
        cases hresult : scanBlockResult c effects with
        | error e =>
          refine Or.inl ⟨hnone ?_, rfl⟩
          rintro ⟨effects', done, heffects, hdone⟩
          rw [hsend] at heffects
          obtain rfl := Option.some.inj heffects
          rw [hresult] at hdone
          cases hdone
        | ok done => exact Or.inr ⟨hiff.mp ⟨effects, done, hsend, hresult⟩, rfl⟩

end NnsVerified.Hull
