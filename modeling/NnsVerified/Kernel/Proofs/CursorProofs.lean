import NnsVerified.Kernel.Proofs.CauseProofs
import NnsVerified.Kernel.Proofs.RunProofs
import NnsVerified.Kernel.Sample

/-!
# The scan cursor

Over any run of pokes, the accepted blocks are consecutive and linked and the cursor is at the last
one; nothing else moves it. The accumulator and the cursor depend on the accepted blocks alone.
-/

namespace NnsVerified.Kernel

open NnsVerified.Hoon NnsVerified.Library

variable {Acc Vesl : Type} {env : Env Acc Vesl}

/-- Two runs that accepted the same blocks, at least one, agree on accumulator and cursor. -/
theorem RunInv.determined {bs : List ScanBlock} {s t : State Acc Vesl} (hne : bs ≠ [])
    (hs : RunInv env bs s) (ht : RunInv env bs t) :
    s.accumulator = t.accumulator ∧ s.lastProvedHeight = t.lastProvedHeight ∧
      s.lastProvedDigest = t.lastProvedDigest := by
  have hscan := (hs.scanned hne).1
  rw [(ht.scanned hne).1] at hscan
  exact ⟨(Except.ok.inj hscan).symm, hs.height.trans ht.height.symm, hs.digest.trans ht.digest.symm⟩

/-- Over any run the cursor is at the last accepted block, the accepted blocks are consecutive and
linked, only an accepted block moves the cursor, and the accepted blocks alone decide accumulator and
cursor. -/
theorem scan_cursor_safe (hh : env.HashLaws) (hm : env.MapLaws) (inputs : List Noun)
    (hne : runBlocks env inputs ≠ []) :
    (runState env inputs).lastProvedHeight
        = nnsGenesisHeight + (runBlocks env inputs).length - 1 ∧
    (runState env inputs).lastProvedDigest = ((runBlocks env inputs).getLast hne).pageDigest ∧
    (∀ (i : Nat) (h : i < (runBlocks env inputs).length),
      (runBlocks env inputs)[i].height = nnsGenesisHeight + i) ∧
    (∀ (i : Nat) (h : i + 1 < (runBlocks env inputs).length),
      (runBlocks env inputs)[i + 1].parent = (runBlocks env inputs)[i].pageDigest) ∧
    (∀ (s : State Acc Vesl) (input : Noun), acceptedBlock env s input = none →
      (nextState env s input).lastProvedHeight = s.lastProvedHeight ∧
      (nextState env s input).lastProvedDigest = s.lastProvedDigest) ∧
    (∀ inputs' : List Noun, runBlocks env inputs' = runBlocks env inputs →
      (runState env inputs').accumulator = (runState env inputs).accumulator ∧
      (runState env inputs').lastProvedHeight = (runState env inputs).lastProvedHeight ∧
      (runState env inputs').lastProvedDigest = (runState env inputs).lastProvedDigest) := by
  have hinv := runInv hh hm inputs
  refine ⟨?_, ?_, hinv.linked.heights, hinv.linked.parents, ?_, ?_⟩
  · rw [hinv.height, cursorHeight, if_neg hne]
  · rw [hinv.digest, cursorDigest, List.getLast?_eq_some_getLast hne]
    rfl
  · intro s input hrej
    obtain ⟨hheight, hdigest, -⟩ := nextState_of_rejected hrej
    exact ⟨hheight, hdigest⟩
  · intro inputs' hsame
    have hinv' := runInv hh hm inputs'
    rw [hsame] at hinv'
    exact hinv'.determined hne hinv

/-- The first block of all, with one claim. -/
def openingBlock : ScanBlock where
  parent := 0
  height := nnsGenesisHeight
  pageDigest := 7
  pageTxIds := [20]
  claims := [paidClaim (cord "a.nock") 1 20]

/-- The block after it, with a claim of the same name and one of another name. -/
def linkedBlock : ScanBlock where
  parent := 7
  height := nnsGenesisHeight + 1
  pageDigest := 8
  pageTxIds := [21, 22]
  claims := [paidClaim (cord "a.nock") 3 21, paidClaim (cord "b.nock") 4 22]

/-- The pokes of two followers that each send both blocks, with a genesis proof at boot and another
one between the blocks. A block that comes too early or for the second time is rejected. -/
def interleavedPokes : List Noun :=
  [proveGenesisNoun, linkedBlock.noun, openingBlock.noun, openingBlock.noun, proveGenesisNoun,
    linkedBlock.noun, linkedBlock.noun]

/-- The pokes of one follower that sends nothing but the blocks. -/
def plainPokes : List Noun := [openingBlock.noun, linkedBlock.noun]

theorem scan_cursor_safe_interleaved :
    runBlocks provingEnv interleavedPokes = [openingBlock, linkedBlock] ∧
    (runState provingEnv interleavedPokes).lastProvedHeight = 63000 + 2 - 1 ∧
    (runState provingEnv interleavedPokes).lastProvedDigest = 8 ∧
    linkedBlock.height = nnsGenesisHeight + 1 ∧ linkedBlock.parent = openingBlock.pageDigest ∧
    -- the second follower's copy of the first block moves nothing
    (nextState provingEnv (runState provingEnv (interleavedPokes.take 3))
      openingBlock.noun).lastProvedHeight
        = (runState provingEnv (interleavedPokes.take 3)).lastProvedHeight ∧
    -- only one of the two runs stored a proof, and they agree on accumulator and cursor
    (runState provingEnv interleavedPokes).recursiveProof.isSome = true ∧
    (runState provingEnv plainPokes).recursiveProof.isSome = false ∧
    (runState provingEnv plainPokes).accumulator
      = (runState provingEnv interleavedPokes).accumulator ∧
    (runState provingEnv plainPokes).lastProvedHeight
      = (runState provingEnv interleavedPokes).lastProvedHeight ∧
    (runState provingEnv plainPokes).lastProvedDigest
      = (runState provingEnv interleavedPokes).lastProvedDigest := by
  have hblocks : runBlocks provingEnv interleavedPokes = [openingBlock, linkedBlock] := by
    decide +kernel
  have hplain : runBlocks provingEnv plainPokes = [openingBlock, linkedBlock] := by
    decide +kernel
  have hagain : acceptedBlock provingEnv (runState provingEnv (interleavedPokes.take 3))
      openingBlock.noun = none := by
    decide +kernel
  have hstored : (runState provingEnv interleavedPokes).recursiveProof.isSome = true ∧
      (runState provingEnv plainPokes).recursiveProof.isSome = false := by
    decide +kernel
  obtain ⟨hheight, hdigest, hheights, hparents, hrejected, hsame⟩ := scan_cursor_safe
    provingEnv_hashLaws provingEnv_mapLaws interleavedPokes (by rw [hblocks]; simp)
  simp only [hblocks] at hheight hdigest hheights hparents hsame
  exact ⟨hblocks, hheight, hdigest, hheights 1 (by simp), hparents 0 (by simp),
    (hrejected _ _ hagain).1, hstored.1, hstored.2, hsame plainPokes hplain⟩

end NnsVerified.Kernel
