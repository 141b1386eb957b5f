import NnsVerified.Kernel.Proofs.CauseProofs
import NnsVerified.Kernel.Proofs.PredicatesProofs
import NnsVerified.Kernel.Sample

/-!
# The settlement gate

The gate walks the leaves of a batch with the names and the transaction hashes that it has seen. It
accepts exactly the batches whose leaves are valid and proved and in which no name and no
transaction hash occurs twice, so neither the order of the leaves nor leaving some out matters.
-/

namespace NnsVerified.Kernel

open NnsVerified.Hoon NnsVerified.Library

variable {Acc Vesl : Type} {env : Env Acc Vesl}

/-! ## The noun of a batch -/

/-- A sibling of a path as a noun. -/
def proofNodeNoun (node : Nat × Bool) : Noun := .cell (.atom node.1) (Noun.loob node.2)

/-- A leaf with its path as a noun. -/
def GateLeaf.noun (l : GateLeaf) : Noun :=
  Noun.tuple (.atom l.name) [.atom l.owner, .atom l.txHash, Noun.list (l.proof.map proofNodeNoun)]

/-- The noun that the gate reads the leaves from. -/
def batchNoun (leaves : List GateLeaf) : Noun := Noun.list (leaves.map GateLeaf.noun)

theorem clamProofNode_noun (node : Nat × Bool) : clamProofNode (proofNodeNoun node) = some node := by
  obtain ⟨hash, side⟩ := node
  cases side <;> rfl

theorem clamGateLeaf_noun (l : GateLeaf) : clamGateLeaf l.noun = some l := by
  show ((clamList clamProofNode (Noun.list _)).bind fun proof =>
    some (⟨l.name, l.owner, l.txHash, proof⟩ : GateLeaf)) = _
  rw [clamList_map clamProofNode_noun, Option.bind_some]

/-- On the noun of a batch the gate runs its loop. -/
theorem nnsGate_batchNoun (leaves : List GateLeaf) (expectedRoot : Nat) :
    nnsGate env (batchNoun leaves) expectedRoot = nnsGate.loop env expectedRoot ∅ ∅ leaves := by
  unfold nnsGate batchNoun
  rw [clamList_map clamGateLeaf_noun]
  rfl

/-! ## What was not seen before -/

/-- No value of the list was seen before, and none occurs twice in it. -/
def Unseen (seen : Finset Nat) (l : List Nat) : Prop := l.Nodup ∧ ∀ a ∈ l, a ∉ seen

theorem unseen_empty {l : List Nat} : Unseen ∅ l ↔ l.Nodup := by simp [Unseen]

/-- What the head adds to the seen values is what the tail must avoid. -/
theorem unseen_cons {seen : Finset Nat} {a : Nat} {l : List Nat} :
    Unseen seen (a :: l) ↔ a ∉ seen ∧ Unseen (Insert.insert a seen) l := by
  unfold Unseen
  rw [List.nodup_cons, List.forall_mem_cons]
  constructor
  · rintro ⟨⟨hal, hl⟩, ha, hseen⟩
    refine ⟨ha, hl, fun b hb hmem => ?_⟩
    rcases Finset.mem_insert.mp hmem with rfl | hbs
    · exact hal hb
    · exact hseen b hb hbs
  · rintro ⟨ha, hl, hins⟩
    exact ⟨⟨fun hal => hins a hal (Finset.mem_insert_self a seen), hl⟩, ha,
      fun b hb hbs => hins b hb (Finset.mem_insert_of_mem hbs)⟩

/-! ## The loop -/

/-- What the proof of a leaf is about: `jam [name owner tx-hash]`. -/
def GateLeaf.chunk (env : Env Acc Vesl) (l : GateLeaf) : Nat :=
  env.jam (Noun.tuple (.atom l.name) [.atom l.owner, .atom l.txHash])

/-- Every leaf of a batch has a valid name and is proved against the root. -/
def LeavesValid (env : Env Acc Vesl) (verifies : Nat → List (Nat × Bool) → Nat → Bool)
    (expectedRoot : Nat) (leaves : List GateLeaf) : Prop :=
  ∀ l ∈ leaves, isValidName l.name = .ok true ∧
    verifies (l.chunk env) l.proof expectedRoot = true

section

variable {verifies : Nat → List (Nat × Bool) → Nat → Bool}
  (hverify : ∀ chunk proof root, env.verifyChunk chunk proof root = .ok (verifies chunk proof root))

include hverify

/-- One leaf: the checks in their order, and the rest of the batch with the leaf seen. -/
theorem nnsGate_loop_cons (expectedRoot : Nat) (seenNames seenTxHashes : Finset Nat) (l : GateLeaf)
    (t : List GateLeaf) :
    nnsGate.loop env expectedRoot seenNames seenTxHashes (l :: t) =
      if ValidName l.name ∧ l.name ∉ seenNames ∧ l.txHash ∉ seenTxHashes ∧
          verifies (l.chunk env) l.proof expectedRoot = true then
        nnsGate.loop env expectedRoot (Insert.insert l.name seenNames)
          (Insert.insert l.txHash seenTxHashes) t
      else .ok false := by
  rw [nnsGate.loop, isValidName_eq, hverify, ok_bind, ok_bind, ← GateLeaf.chunk]
  by_cases hname : ValidName l.name
  · by_cases hseen : l.name ∈ seenNames
    · simp [hname, hseen]
    · by_cases htx : l.txHash ∈ seenTxHashes
      · simp [hname, hseen, htx]
      · by_cases hproof : verifies (l.chunk env) l.proof expectedRoot = true
        · simp [hname, hseen, htx, hproof]
        · simp [hname, hseen, htx, hproof]
  · simp [hname]

/-- The loop answers on every batch; the values seen so far stand in for the leaves before it. -/
theorem nnsGate_loop_spec (expectedRoot : Nat) (seenNames seenTxHashes : Finset Nat)
    (leaves : List GateLeaf) :
    ∃ b, nnsGate.loop env expectedRoot seenNames seenTxHashes leaves = .ok b ∧
      (b = true ↔ LeavesValid env verifies expectedRoot leaves ∧
        Unseen seenNames (leaves.map GateLeaf.name) ∧
        Unseen seenTxHashes (leaves.map GateLeaf.txHash)) := by
  induction leaves generalizing seenNames seenTxHashes with
  | nil => exact ⟨true, rfl, by simp [LeavesValid, Unseen]⟩
  | cons l t ih =>
    obtain ⟨b, hloop, hb⟩ :=
      ih (Insert.insert l.name seenNames) (Insert.insert l.txHash seenTxHashes)
    have hhead : LeavesValid env verifies expectedRoot (l :: t) ↔
        (ValidName l.name ∧ verifies (l.chunk env) l.proof expectedRoot = true) ∧
          LeavesValid env verifies expectedRoot t := by
      unfold LeavesValid
      rw [List.forall_mem_cons, isValidName_true]
    rw [nnsGate_loop_cons hverify, hhead, List.map_cons, List.map_cons, unseen_cons, unseen_cons]
    split
    · rename_i hchecks
      refine ⟨b, hloop, ?_⟩
      rw [hb]
      simp [hchecks]
    · rename_i hchecks
      refine ⟨false, rfl, ?_⟩
      simp only [Bool.false_eq_true, false_iff]
      rintro ⟨⟨⟨hname, hproof⟩, -⟩, ⟨hseen, -⟩, htx, -⟩
      exact hchecks ⟨hname, hseen, htx, hproof⟩

end

/-- A batch that the gate accepts. -/
structure Admitted (env : Env Acc Vesl) (verifies : Nat → List (Nat × Bool) → Nat → Bool)
    (expectedRoot : Nat) (leaves : List GateLeaf) : Prop where
  valid : LeavesValid env verifies expectedRoot leaves
  names : (leaves.map GateLeaf.name).Nodup
  txHashes : (leaves.map GateLeaf.txHash).Nodup

theorem nodup_map_of_subperm {α β : Type} {f : α → β} {l l' : List α} (hsub : l.Subperm l')
    (h : (l'.map f).Nodup) : (l.map f).Nodup := by
  obtain ⟨m, hperm, hsublist⟩ := hsub
  exact (hperm.map f).nodup_iff.mp ((hsublist.map f).nodup h)

/-- Leaving out leaves and reordering the rest keeps a batch admitted. -/
theorem Admitted.subperm {verifies : Nat → List (Nat × Bool) → Nat → Bool} {expectedRoot : Nat}
    {leaves sub : List GateLeaf} (h : Admitted env verifies expectedRoot leaves)
    (hsub : sub.Subperm leaves) : Admitted env verifies expectedRoot sub where
  valid l hl := h.valid l (hsub.subset hl)
  names := nodup_map_of_subperm hsub h.names
  txHashes := nodup_map_of_subperm hsub h.txHashes

/-- The gate answers on every batch, `%.y` exactly on the admitted ones, and alike on every
permutation of a batch; it accepts every part of a batch that it accepts. -/
theorem nnsGate_admits (verifies : Nat → List (Nat × Bool) → Nat → Bool)
    (hverify : ∀ chunk proof root,
      env.verifyChunk chunk proof root = .ok (verifies chunk proof root))
    (leaves : List GateLeaf) (expectedRoot : Nat) :
    (∃ b, nnsGate env (batchNoun leaves) expectedRoot = .ok b ∧
      (b = true ↔
        (∀ l ∈ leaves, isValidName l.name = .ok true) ∧
        (∀ l ∈ leaves, verifies (env.jam (Noun.tuple (.atom l.name) [.atom l.owner, .atom l.txHash]))
          l.proof expectedRoot = true) ∧
        (leaves.map GateLeaf.name).Nodup ∧ (leaves.map GateLeaf.txHash).Nodup)) ∧
    (∀ leaves' : List GateLeaf, leaves.Perm leaves' →
      nnsGate env (batchNoun leaves') expectedRoot = nnsGate env (batchNoun leaves) expectedRoot) ∧
    (∀ sub : List GateLeaf, sub.Subperm leaves →
      nnsGate env (batchNoun leaves) expectedRoot = .ok true →
        nnsGate env (batchNoun sub) expectedRoot = .ok true) := by
  have hspec : ∀ leaves : List GateLeaf, ∃ b,
      nnsGate env (batchNoun leaves) expectedRoot = .ok b ∧
        (b = true ↔ Admitted env verifies expectedRoot leaves) := by
    intro leaves
    obtain ⟨b, hloop, hb⟩ := nnsGate_loop_spec hverify expectedRoot ∅ ∅ leaves
    refine ⟨b, by rw [nnsGate_batchNoun, hloop], ?_⟩
    rw [hb, unseen_empty, unseen_empty]
    exact ⟨fun ⟨hvalid, hnames, htx⟩ => ⟨hvalid, hnames, htx⟩,
      fun h => ⟨h.valid, h.names, h.txHashes⟩⟩
  obtain ⟨b, hb, hadm⟩ := hspec leaves
  refine ⟨⟨b, hb, ?_⟩, ?_, ?_⟩
  · rw [hadm]
    constructor
    · intro h
      exact ⟨fun l hl => (h.valid l hl).1, fun l hl => (h.valid l hl).2, h.names, h.txHashes⟩
    · rintro ⟨hnames, hproofs, hnodup, htx⟩
      exact ⟨fun l hl => ⟨hnames l hl, hproofs l hl⟩, hnodup, htx⟩
  · intro leaves' hperm
    obtain ⟨b', hb', hadm'⟩ := hspec leaves'
    have hsame : b' = true ↔ b = true := by
      rw [hadm', hadm]
      exact ⟨fun h => h.subperm hperm.subperm, fun h => h.subperm hperm.symm.subperm⟩
    rw [hb', hb, Bool.eq_iff_iff.mpr hsame]
  · intro sub hsub htrue
    obtain ⟨c, hc, hadmc⟩ := hspec sub
    rw [htrue] at hb
    obtain rfl := Except.ok.inj hb
    rw [hc, hadmc.mpr ((hadm.mp rfl).subperm hsub)]

/-- The inner node over two nodes. -/
def samplePair (left right : Nat) : Nat := (31 * left + 37 * right + 1) % goldilocks

/-- A Merkle walk: the sibling is on the left where its side is `%.y`. -/
def sampleVerifies (chunk : Nat) (proof : List (Nat × Bool)) (root : Nat) : Bool :=
  proof.foldl (fun h node => if node.2 then samplePair node.1 h else samplePair h node.1) chunk
    = root

/-- The sample kernel with a verifier of Merkle proofs. -/
def merkleEnv : Env (List (NnsNameKey × NnsAccumulatorEntry)) Unit :=
  { sampleEnv with verifyChunk := fun chunk proof root => .ok (sampleVerifies chunk proof root) }

/-- What is hashed of a leaf. -/
def leafChunk (name owner txHash : Nat) : Nat :=
  sampleJam (Noun.tuple (.atom name) [.atom owner, .atom txHash])

/-- The two leaves of a tree, each with the other as its proof. -/
def siblingLeaves : List GateLeaf :=
  [⟨cord "a.nock", 1, 20, [(leafChunk (cord "b.nock") 2 21, false)]⟩,
    ⟨cord "b.nock", 2, 21, [(leafChunk (cord "a.nock") 1 20, true)]⟩]

/-- The root over two leaves. -/
def siblingRoot : Nat :=
  samplePair (leafChunk (cord "a.nock") 1 20) (leafChunk (cord "b.nock") 2 21)

theorem nnsGate_admits_siblings :
    nnsGate merkleEnv (batchNoun siblingLeaves.reverse) siblingRoot = .ok true := by
  obtain ⟨⟨b, hb, hiff⟩, hperm, -⟩ :=
    @nnsGate_admits _ _ merkleEnv sampleVerifies (fun _ _ _ => rfl) siblingLeaves siblingRoot
  rw [hperm _ siblingLeaves.reverse_perm.symm, hb]
  refine congrArg Except.ok (hiff.mpr ⟨?_, ?_, ?_, ?_⟩)
  · decide
  · decide
  · decide
  · decide

end NnsVerified.Kernel
